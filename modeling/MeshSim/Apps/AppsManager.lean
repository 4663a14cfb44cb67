import MeshSim.Foundation.Overwrite
import MeshSim.Routing.IoUtils

/-!
# The applications manager

`sim/apps_manager.cc`: the applications of a configuration are created, and every connect statement
is turned into individual connections between a sender and a receiver.  A connection is nothing but
the attributes it sets on the two applications: the address and port to send to, the port to listen
on, and the protocol.  The trace files that are opened on the way are recorded with the headers
written to them.

Texts are lists of characters.  The classes of the applications enter through `AttributeTable`,
which says what their attributes accept.  A connection has no result when the program ends: a
violated assertion, a null pointer, or an attribute that does not exist or does not accept the
value.  Opening a trace file succeeds.
-/

namespace MeshSim

open PythonText Overwrite

/-! ### The configuration -/

/-- `AppConfig::AppType`. -/
inductive AppType where
  /-- `APP_INVALID`. -/
  | invalid
  /-- `APP_UDP_ECHO_CLIENT`. -/
  | udpEchoClient
  /-- `APP_UDP_ECHO_SERVER`. -/
  | udpEchoServer
  /-- `APP_FILE_SERVER`. -/
  | fileServer
  /-- `APP_STREAMING_SERVER`. -/
  | streamingServer
  /-- `APP_CLIENT`. -/
  | client
  /-- `APP_WEB_SERVER`. -/
  | webServer
  /-- `APP_WEB_CLIENT`. -/
  | webClient
  /-- `APP_TIMED_PROXY`. -/
  | timedProxy
  /-- `APP_RQ_ENCODER`. -/
  | rqEncoder
  /-- `APP_RQ_DECODER`. -/
  | rqDecoder
deriving DecidableEq, Repr

/-- `AppConfig`. -/
structure AppConfig where
  /-- The unique name of the app. -/
  tag : List Char
  /-- The app type. -/
  type : AppType
  /-- An IP address of the host containing the app. -/
  ip : ℕ
  /-- The attributes assigned on the app line. -/
  attribs : List (List Char × List Char)

/-- `AppConnectionConfig`. -/
structure AppConnectionConfig where
  /-- The tags of the senders. -/
  senders : List (List Char)
  /-- The tags of the receivers. -/
  receivers : List (List Char)
deriving DecidableEq

/-- `AppsCompleteConfig`. -/
structure AppsCompleteConfig where
  /-- The apps. -/
  app : List AppConfig
  /-- The connect statements. -/
  conn : List AppConnectionConfig

/-! ### Attributes -/

namespace AttributeName

/-- The protocol of an RX slot of a proxy, without its number. -/
def protocolRx : List Char := ['P', 'r', 'o', 't', 'o', 'c', 'o', 'l', 'R', 'x']

/-- The protocol of a TX slot of a proxy, without its number. -/
def protocolTx : List Char := ['P', 'r', 'o', 't', 'o', 'c', 'o', 'l', 'T', 'x']

/-- The address of an RX slot of a proxy, without its number. -/
def rxAddr : List Char := ['R', 'x', 'A', 'd', 'd', 'r']

/-- The address of a TX slot of a proxy, without its number. -/
def txAddr : List Char := ['T', 'x', 'A', 'd', 'd', 'r']

/-- The protocol of a sender or a sink. -/
def protocol : List Char := ['P', 'r', 'o', 't', 'o', 'c', 'o', 'l']

/-- The destination of a sender. -/
def remote : List Char := ['R', 'e', 'm', 'o', 't', 'e']

/-- The address that an echo client sends to. -/
def remoteAddress : List Char := ['R', 'e', 'm', 'o', 't', 'e', 'A', 'd', 'd', 'r', 'e', 's', 's']

/-- The port that an echo client sends to. -/
def remotePort : List Char := ['R', 'e', 'm', 'o', 't', 'e', 'P', 'o', 'r', 't']

/-- The port of an echo server. -/
def port : List Char := ['P', 'o', 'r', 't']

/-- The address that a sink listens on. -/
def sinkLocal : List Char := ['L', 'o', 'c', 'a', 'l']

/-- The address that a web server listens on. -/
def localAddress : List Char := ['L', 'o', 'c', 'a', 'l', 'A', 'd', 'd', 'r', 'e', 's', 's']

/-- The port that a web server listens on. -/
def localPort : List Char := ['L', 'o', 'c', 'a', 'l', 'P', 'o', 'r', 't']

/-- The address that a web client connects to. -/
def remoteServerAddress : List Char :=
  ['R', 'e', 'm', 'o', 't', 'e', 'S', 'e', 'r', 'v', 'e', 'r', 'A', 'd', 'd', 'r', 'e', 's', 's']

/-- The port that a web client connects to. -/
def remoteServerPort : List Char :=
  ['R', 'e', 'm', 'o', 't', 'e', 'S', 'e', 'r', 'v', 'e', 'r', 'P', 'o', 'r', 't']

end AttributeName

/-- A value that is set on an attribute. -/
inductive AttributeValue where
  /-- `StringValue`. -/
  | string (text : List Char)
  /-- `UintegerValue`. -/
  | uinteger (value : ℕ)
  /-- `AddressValue` of an `Ipv4Address`. -/
  | ipv4 (ip : ℕ)
  /-- `AddressValue` of an `InetSocketAddress`. -/
  | inetSocket (ip port : ℕ)
  /-- `TypeIdValue`. -/
  | typeId (name : List Char)
deriving DecidableEq

/-- `InetSocketAddress (ip, port)`, where the port is a `uint16_t`. -/
def inetSocketAddress (ip port : ℕ) : AttributeValue := .inetSocket ip (port % 2 ^ 16)

/-- `AttribNames`. -/
structure AttribNames where
  /-- The attribute of the protocol. -/
  proto : List Char := []
  /-- The attribute of the address. -/
  address : List Char := []
  /-- The attribute of the port, empty when the address incorporates it. -/
  port : List Char := []
deriving DecidableEq

/-- `tsubst`. -/
def tsubst (orig : List Char) (index : ℕ) : List Char :=
  if orig = [] then [] else orig ++ formatLong index

/-- `getNamesFromNameTemplates`. -/
def getNamesFromNameTemplates (templ : AttribNames) (i : ℕ) : AttribNames where
  proto := tsubst templ.proto i
  address := tsubst templ.address i
  port := tsubst templ.port i

/-- `AppRecord`, without the pointer to the application. -/
structure AppRecord where
  /-- `type`. -/
  type : AppType := .udpEchoClient
  /-- `host_ip`. -/
  hostIp : ℕ := 0
  /-- `TxMultiple`. -/
  txMultiple : Bool := false
  /-- `TxNames`. -/
  txNames : AttribNames := {}
  /-- `RxMultiple`. -/
  rxMultiple : Bool := false
  /-- `RxNames`. -/
  rxNames : AttribNames := {}
  /-- `has_rx_trace`. -/
  hasRxTrace : Bool := false
  /-- `has_rq_decoder_trace`. -/
  hasRqDecoderTrace : Bool := false

open AttributeName in
/-- The switch of `createApp`: the record of a new application. -/
def AppRecord.ofType (type : AppType) (ip : ℕ) : Option AppRecord :=
  match type with
  | .invalid => none
  | .udpEchoClient =>
    some { type := type, hostIp := ip, txNames := { address := remoteAddress, port := remotePort } }
  | .udpEchoServer => some { type := type, hostIp := ip, rxNames := { port := port } }
  | .fileServer =>
    some { type := type, hostIp := ip, txNames := { proto := protocol, address := remote } }
  | .streamingServer =>
    some { type := type, hostIp := ip, txNames := { proto := protocol, address := remote } }
  | .client =>
    some { type := type, hostIp := ip, rxNames := { proto := protocol, address := sinkLocal }
           hasRxTrace := true }
  | .webServer =>
    some { type := type, hostIp := ip, rxNames := { address := localAddress, port := localPort } }
  | .webClient =>
    some { type := type, hostIp := ip
           txNames := { address := remoteServerAddress, port := remoteServerPort } }
  | .timedProxy =>
    some { type := type, hostIp := ip
           rxMultiple := false
           rxNames := { proto := protocolRx ++ ['0'], address := rxAddr ++ ['0'] }
           txMultiple := false
           txNames := { proto := protocolTx ++ ['0'], address := txAddr ++ ['0'] }
           hasRxTrace := true }
  | .rqEncoder =>
    some { type := type, hostIp := ip
           rxMultiple := true
           rxNames := { proto := protocolRx, address := rxAddr }
           txMultiple := false
           txNames := { proto := protocolTx ++ ['0'], address := txAddr ++ ['0'] }
           hasRxTrace := true }
  | .rqDecoder =>
    some { type := type, hostIp := ip
           rxMultiple := false
           rxNames := { proto := protocolRx ++ ['0'], address := rxAddr ++ ['0'] }
           txMultiple := true
           txNames := { proto := protocolTx, address := txAddr }
           hasRxTrace := true
           hasRqDecoderTrace := true }

/-- The names of the TX attributes for the receiver with an index. -/
def AppRecord.txNamesAt (R : AppRecord) (rxIndex : ℕ) : AttribNames :=
  if R.txMultiple then getNamesFromNameTemplates R.txNames rxIndex else R.txNames

/-- The names of the RX attributes for the sender with an index. -/
def AppRecord.rxNamesAt (R : AppRecord) (txIndex : ℕ) : AttribNames :=
  if R.rxMultiple then getNamesFromNameTemplates R.rxNames txIndex else R.rxNames

/-- What the classes of the applications say of their attributes. -/
structure AttributeTable where
  /-- The value an attribute has before it is set. -/
  initial : AppType → List Char → Option AttributeValue
  /-- Whether the class has an attribute of the name that accepts the value. -/
  accepts : AppType → List Char → AttributeValue → Bool
  /-- No attribute has an empty name. -/
  accepts_nil : ∀ type value, accepts type [] value = false
  /-- The ports are attributes of type `uint16_t`. -/
  accepts_port : ∀ type ip R port, AppRecord.ofType type ip = some R →
    (accepts type R.txNames.port (.uinteger port) = true ∨
      accepts type R.rxNames.port (.uinteger port) = true) → port < 2 ^ 16

/-! ### Creating the applications -/

/-- Why `createApps` does not succeed. -/
inductive AppsError where
  /-- It returns `false` after printing a message. -/
  | refused (message : String)
  /-- The program ends. -/
  | aborted
deriving DecidableEq

/-- The processing data of `AppsManager`: the map from tags to records, and the attributes that have
been set, by the tag of the application and their name. -/
structure AppsManager where
  /-- `rec`. -/
  records : List Char → Option AppRecord
  /-- The attributes that have been set. -/
  attributes : List Char × List Char → Option AttributeValue

/-- `setAppAttribs`. -/
def setAppAttribs (A : AttributeTable) (type : AppType)
    (attrs : List Char → Option AttributeValue) :
    List (List Char × List Char) → Option (List Char → Option AttributeValue)
  | [] => some attrs
  | (name, text) :: attribs =>
    if A.accepts type name (.string text) then
      setAppAttribs A type (Function.update attrs name (some (.string text))) attribs
    else none

namespace AppsManager

/-- `AppsManager::AppsManager`. -/
def init : AppsManager where
  records := fun _ => none
  attributes := fun _ => none

/-- `createApp`. -/
def createApp (A : AttributeTable) (addr2netdev : ℕ → Bool) (M : AppsManager) (cfg : AppConfig) :
    Except AppsError AppsManager :=
  match AppRecord.ofType cfg.type cfg.ip with
  | none => .error (.refused "Error:  Unhandled App type\n")
  | some R =>
    match setAppAttribs A cfg.type (fun _ => none) cfg.attribs with
    | none => .error .aborted
    | some attrs =>
      if (M.records cfg.tag).isSome then
        .error (.refused ("Error:  Application tag name " ++ String.ofList cfg.tag ++
          "' used more than once.\n"))
      else if addr2netdev cfg.ip then
        .ok { records := Function.update M.records cfg.tag (some R)
              attributes := fun key =>
                if key.1 = cfg.tag then attrs key.2 else M.attributes key }
      else .error .aborted

/-- The first loop of `createApps`. -/
def createAll (A : AttributeTable) (addr2netdev : ℕ → Bool) (M : AppsManager) :
    List AppConfig → Except AppsError AppsManager
  | [] => .ok M
  | cfg :: cfgs =>
    match M.createApp A addr2netdev cfg with
    | .error e => .error e
    | .ok M => createAll A addr2netdev M cfgs

/-! ### Creating the connections -/

/-- `rec[tag]`: a missing record is created empty. -/
def record (M : AppsManager) (tag : List Char) : AppRecord := (M.records tag).getD {}

/-- `SetAttribute` on the application with a tag. -/
def setAttribute (A : AttributeTable) (M : AppsManager) (tag name : List Char)
    (value : AttributeValue) : Option AppsManager :=
  match M.records tag with
  | none => none
  | some R =>
    if A.accepts R.type name value then
      some { M with attributes := Function.update M.attributes (tag, name) (some value) }
    else none

/-- `GetAttribute` on the application with a tag. -/
def getAttribute (A : AttributeTable) (M : AppsManager) (tag name : List Char) :
    Option AttributeValue :=
  match M.records tag with
  | none => none
  | some R =>
    match M.attributes (tag, name) with
    | some value => some value
    | none => A.initial R.type name

/-- The part of `createConn1` that makes the protocols match. -/
def matchProtocols (A : AttributeTable) (M : AppsManager) (tagTx tagRx : List Char)
    (txNames rxNames : AttribNames) : Option AppsManager :=
  if txNames.proto ≠ [] then
    (M.getAttribute A tagTx txNames.proto).bind fun proto =>
      M.setAttribute A tagRx rxNames.proto proto
  else some M

/-- The sender side of `createConn1`. -/
def setSender (A : AttributeTable) (M : AppsManager) (tagTx : List Char) (txNames : AttribNames)
    (rxAddr port : ℕ) : Option AppsManager :=
  if txNames.port ≠ [] then
    (M.setAttribute A tagTx txNames.port (.uinteger port)).bind fun M =>
      M.setAttribute A tagTx txNames.address (.ipv4 rxAddr)
  else M.setAttribute A tagTx txNames.address (inetSocketAddress rxAddr port)

/-- `Ipv4Address::GetAny ()`. -/
def anyAddress : ℕ := 0

/-- The receiver side of `createConn1`. -/
def setReceiver (A : AttributeTable) (M : AppsManager) (tagRx : List Char) (rxNames : AttribNames)
    (port : ℕ) : Option AppsManager :=
  if rxNames.port ≠ [] then
    (M.setAttribute A tagRx rxNames.port (.uinteger port)).bind fun M =>
      if rxNames.address ≠ [] then M.setAttribute A tagRx rxNames.address (.ipv4 anyAddress)
      else some M
  else M.setAttribute A tagRx rxNames.address (inetSocketAddress anyAddress port)

/-- `createConn1`. -/
def createConn1 (A : AttributeTable) (M : AppsManager) (sindex rxIndex : ℕ) (tagRx : List Char)
    (txIndex : ℕ) (tagTx : List Char) : Option AppsManager :=
  let recTx := M.record tagTx
  let recRx := M.record tagRx
  let txNames := recTx.txNamesAt rxIndex
  let rxNames := recRx.rxNamesAt txIndex
  (M.matchProtocols A tagTx tagRx txNames rxNames).bind fun M =>
    -- the assertion that it can be told where to send
    if txNames.address = [] then none
    else
      (M.setSender A tagTx txNames recRx.hostIp (sindex + 1001)).bind fun M =>
        M.setReceiver A tagRx rxNames (sindex + 1001)

end AppsManager

/-! ### Trace files -/

/-- A trace file that `createConns` opens. -/
structure TraceFile where
  /-- The name of the file. -/
  path : List Char
  /-- What is written to it when it is opened. -/
  header : List Char
deriving DecidableEq

/-- `setfill('0') << setw(3)`. -/
def setw3 (n : ℕ) : List Char := zeroPad 3 n

/-- A line of a header, with the values behind the equals sign. -/
def headerLine (name : List Char) (values : List (List Char)) : List Char :=
  ['#', ' '] ++ name ++ [' ', '='] ++ values.flatMap (fun v => ' ' :: v) ++ ['\n']

namespace HeaderName

/-- The index of the connection. -/
def appConnectId : List Char :=
  ['a', 'p', 'p', '_', 'c', 'o', 'n', 'n', 'e', 'c', 't', '_', 'i', 'd']

/-- The index of the connect statement. -/
def connectStmtId : List Char :=
  ['c', 'o', 'n', 'n', 'e', 'c', 't', '_', 's', 't', 'm', 't', '_', 'i', 'd']

/-- The tags of the senders. -/
def tagsTx : List Char := ['t', 'a', 'g', 's', '_', 't', 'x']

/-- The tag of the receiver. -/
def tagRx : List Char := ['t', 'a', 'g', '_', 'r', 'x']

end HeaderName

/-- `WriteHeader`, which prints the tags as C strings. -/
def writeHeader (sindex connIndex : ℕ) (senders : List (List Char)) (tagRx : List Char) :
    List Char :=
  headerLine HeaderName.appConnectId [formatLong sindex] ++
    headerLine HeaderName.connectStmtId [formatLong connIndex] ++
    headerLine HeaderName.tagsTx (senders.map cStr) ++ headerLine HeaderName.tagRx [cStr tagRx]

/-- The start of the name of a trace file, behind the output directory. -/
def tracePath (outDir kind : List Char) (sindex : ℕ) : List Char :=
  outDir ++ ['/', 't', 'r', 'a', 'c', 'e', '-', 'a', 'p', 'p', '-'] ++ kind ++ ['-'] ++
    setw3 sindex ++ ['.', 't', 'x', 't']

/-- The trace files that `createConns` opens for one receiver. -/
def traceFiles (outDir : List Char) (recRx : AppRecord) (sindex connIndex : ℕ)
    (senders : List (List Char)) (tagRx : List Char) : List TraceFile :=
  (if recRx.hasRxTrace then
    [{ path := tracePath outDir ['r', 'x'] sindex
       header := writeHeader sindex connIndex senders tagRx },
     { path := tracePath outDir ['p', 'l'] sindex
       header := writeHeader sindex connIndex senders tagRx }]
  else []) ++
  if recRx.hasRqDecoderTrace then
    [{ path := tracePath outDir ['r', 'q', 'd', 'e', 'c'] sindex, header := [] }]
  else []

namespace AppsManager

/-- The loop of `createConns` over the senders, each with its index. -/
def connectSenders (A : AttributeTable) (rxIndex : ℕ) (tagRx : List Char) (M : AppsManager)
    (sindex : ℕ) : List (List Char × ℕ) → Option (AppsManager × ℕ)
  | [] => some (M, sindex)
  | (tagTx, txIndex) :: senders =>
    (M.createConn1 A sindex rxIndex tagRx txIndex tagTx).bind fun M =>
      connectSenders A rxIndex tagRx M (sindex + 1) senders

/-- The loop of `createConns` over the receivers, each with its index. -/
def connectReceivers (A : AttributeTable) (outDir : List Char) (connIndex : ℕ)
    (senders : List (List Char)) (M : AppsManager) (sindex : ℕ) :
    List (List Char × ℕ) → Option (AppsManager × ℕ × List TraceFile)
  | [] => some (M, sindex, [])
  | (tagRx, rxIndex) :: receivers =>
    (connectSenders A rxIndex tagRx M sindex senders.zipIdx).bind fun r =>
      (connectReceivers A outDir connIndex senders r.1 r.2 receivers).map fun s =>
        (s.1, s.2.1,
          traceFiles outDir (r.1.record tagRx) r.2 connIndex senders tagRx ++ s.2.2)

/-- The validation of a connect statement: the message with which it is refused. -/
def validate (M : AppsManager) (cfg : AppConnectionConfig) : Option String :=
  if cfg.senders.length ≠ 1 ∧ cfg.receivers.length ≠ 1 then
    some "Error:  Support for N:M connections not implemented.\n"
  else if 1 < cfg.senders.length ∧ (M.record (cfg.receivers.headD [])).rxMultiple = false then
    some ("Error:  N:1 connection to an app that does not support multiple " ++
      "RX connections.\n")
  else if 1 < cfg.receivers.length ∧ (M.record (cfg.senders.headD [])).txMultiple = false then
    some ("Error:  1:N connection from an app that does not support multiple " ++
      "TX connections.\n")
  else none

/-- `createConns`, with the connection index behind the statement and the trace files opened. -/
def createConns (A : AttributeTable) (outDir : List Char) (M : AppsManager) (connIndex sindex : ℕ)
    (cfg : AppConnectionConfig) : Except AppsError (AppsManager × ℕ × List TraceFile) :=
  match M.validate cfg with
  | some message => .error (.refused message)
  | none =>
    match M.connectReceivers A outDir connIndex cfg.senders sindex cfg.receivers.zipIdx with
    | none => .error .aborted
    | some r => .ok r

/-- The second loop of `createApps`, over the connect statements with their indices. -/
def connectAll (A : AttributeTable) (outDir : List Char) (M : AppsManager) (sindex : ℕ) :
    List (AppConnectionConfig × ℕ) → Except AppsError (AppsManager × List TraceFile)
  | [] => .ok (M, [])
  | (cfg, connIndex) :: cfgs =>
    match M.createConns A outDir connIndex sindex cfg with
    | .error e => .error e
    | .ok r =>
      match connectAll A outDir r.1 r.2.1 cfgs with
      | .error e => .error e
      | .ok s => .ok (s.1, r.2.2 ++ s.2)

/-- `createApps`. -/
def createApps (A : AttributeTable) (addr2netdev : ℕ → Bool) (outDir : List Char)
    (cfg : AppsCompleteConfig) : Except AppsError (AppsManager × List TraceFile) :=
  match init.createAll A addr2netdev cfg.app with
  | .error e => .error e
  | .ok M => M.connectAll A outDir 0 cfg.conn.zipIdx

end AppsManager

end MeshSim
