import FundPolymarket.Wire

set_option autoImplicit false

/- `brokers/factory.py`, the settings that it reads, and the broker calls of a program that
keeps the broker it has made. -/
namespace FundPolymarket.Kis

open Python (Json Unicode)

inductive BrokerBackend where
  | kis
  | mock
  deriving DecidableEq

structure BrokerSettings where
  brokerBackend : BrokerBackend := .mock
  kisEnv : KisEnv := .paper
  kisAppKey : String := ""
  kisAppSecret : String := ""
  kisAccountNo : String := ""
  kisAccountProdCd : String := "01"
  kisTokenCachePath : String := ".cache/kis_token.json"
  allowLiveTrading : Bool := false

def BrokerSettings.liveTradingEnabled (settings : BrokerSettings) : Bool :=
  settings.kisEnv = .live && settings.allowLiveTrading

inductive BuiltBroker where
  | mock (broker : MockBroker)
  | kis (broker : KisBroker)

/-- `__init__`. -/
def KisBroker.init (client : KisClient) (trIds : TrIds) (accountNo accountProdCd : String) :
    Except Failure KisBroker := do
  raiseIf (accountNo = "") (.broker "KIS_ACCOUNT_NO 가 설정되지 않았습니다.")
  pure { client, trIds, cano := accountNo, acntPrdtCd := accountProdCd }

/-- `get_broker` where its cache is empty. -/
def createBroker (trIds : TrIds) (settings : BrokerSettings) : Except Failure BuiltBroker :=
  match settings.brokerBackend with
  | .mock => pure (.mock {})
  | .kis => do
      let env := if settings.kisEnv = .live ∧ settings.allowLiveTrading = false then KisEnv.paper
        else settings.kisEnv
      let client ← KisClient.init settings.kisAppKey settings.kisAppSecret env.text
        (settings.kisTokenCachePath ≠ "")
      let broker ← KisBroker.init client trIds settings.kisAccountNo settings.kisAccountProdCd
      pure (.kis broker)

inductive Operation where
  | getQuote (ticker : String)
  | placeOrder (request : OrderRequest)
  | getBalance

section Operations

variable [Unicode]

/-- A call of the adapter, for the requests that it sends. -/
def KisBroker.operate (broker : KisBroker) (s : Surroundings) : Operation → Wire Unit
  | .getQuote ticker => do let _ ← Wire.getQuote s ticker
  | .placeOrder request => do let _ ← Wire.placeOrder broker s request
  | .getBalance => do let _ ← Wire.getBalance broker s

/-- The mock keeps its trades; it sends nothing. -/
def mockOperate (mock : MockBroker) : Operation → MockBroker
  | .getQuote _ | .getBalance => mock
  | .placeOrder request =>
      match mock.placeOrder request with
      | .ok (_, traded) => traded
      | .error _ => mock

/-- The settings, the cache of `get_broker`, and the cache file of the token. -/
structure Program where
  settings : BrokerSettings
  broker : Option BuiltBroker
  file : CacheFile

/-- What happens to a program: new settings, `reset_broker_cache` or a restart, another program
at the file, and calls of the broker. -/
inductive ProgramEvent where
  | configure (settings : BrokerSettings)
  | reset
  | otherProgram (file : CacheFile)
  | operate (s : Surroundings) (operation : Operation)

/-- How an event ends. -/
structure Turn where
  requests : List HttpRequest
  program : Program
  returned : Bool

variable (trIds : TrIds)

/-- `get_broker`: an exception is not cached. -/
def Program.getBroker (program : Program) : Except Failure BuiltBroker :=
  match program.broker with
  | some broker => .ok broker
  | none => createBroker trIds program.settings

def Program.step (program : Program) : ProgramEvent → Turn
  | .configure settings => ⟨[], { program with settings }, true⟩
  | .reset => ⟨[], { program with broker := none }, true⟩
  | .otherProgram file => ⟨[], { program with file }, true⟩
  | .operate s operation =>
      match program.getBroker trIds with
      | .error _ => ⟨[], program, false⟩
      | .ok (.mock mock) =>
          ⟨[], { program with broker := some (.mock (mockOperate mock operation)) }, true⟩
      | .ok (.kis broker) =>
          let outcome := broker.operate { s with file := program.file } operation
            (broker.client, program.file)
          ⟨outcome.sent,
            { program with
              broker := some (.kis { broker with client := outcome.state.1 })
              file := outcome.state.2 },
            outcome.result.isOk⟩

/-- An event and the program that it meets. -/
structure Moment where
  event : ProgramEvent
  pre : Program

def Moment.turn (moment : Moment) : Turn := moment.pre.step trIds moment.event

def moments : Program → List ProgramEvent → List Moment
  | _, [] => []
  | program, event :: events =>
      ⟨event, program⟩ :: moments (program.step trIds event).program events

end Operations

/-- A day on which every endpoint answers. -/
def openDay : Surroundings where
  clock := ⟨1704155400000000, 1704155400000000, 1704155400000000, 1704155400000000⟩
  file := .missing
  store := .written
  token := .response 200 "" (some (.dict [("access_token", .str "t"), ("expires_in", .int 86400)]))
  hashkey _ := .response 200 "" (some (.dict [("HASH", .str "h")]))
  quote _ := .response 200 "" (some (.dict [("output", .dict [("stck_prpr", .str "70000")])]))
  order _ := .response 200 "" (some (.dict [("rt_cd", .str "0")]))
  balance _ := .response 200 "" (some (.dict [("rt_cd", .str "0")]))

/-- Settings for the live environment, with the master switch off. -/
def lockedSettings : BrokerSettings :=
  { brokerBackend := .kis, kisEnv := .live, kisAppKey := "k", kisAppSecret := "s",
    kisAccountNo := "12345678" }

end FundPolymarket.Kis
