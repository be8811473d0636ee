import QuickChat.Common.MysqlDao
import QuickChat.Gate.LogicSystem
import QuickChat.Gate.Url
import QuickChat.Status.StatusServiceImpl
import QuickChat.Verify.VerifyServer

/-!
# A request and its response

`HandleReq` and what it runs: the parsing of the query string, and the handlers that `LogicSystem`
registers. What is done to the response, and the calls of the managers and of the gRPC clients, are
effects, and so is the order in which the unordered map of the parameters is iterated. An assertion
that fails, or an exception, leaves `HandleReq` where it is raised. The JSON reader is not part of the
repository; it gives a document, fails, or throws.
-/

namespace QuickChat

open Text

inductive Verb where
  | get
  | post
  | other (name : Bytes)
  deriving DecidableEq, Repr

structure HttpRequest where
  method : Verb
  target : Bytes
  version : Nat
  body : Bytes

/-- `get_params_` is listed in the order in which its keys have come up; no order is promised to whoever
iterates it. -/
structure HttpConnection where
  request_ : HttpRequest
  get_url_ : Bytes
  get_params_ : List (Bytes × Bytes)

def HttpConnection.new (request_ : HttpRequest) : HttpConnection := ⟨request_, [], []⟩

/-! ### The query string -/

namespace HttpConnection

def setParam (get_params_ : List (Bytes × Bytes)) (key value : Bytes) : List (Bytes × Bytes) :=
  if get_params_.any (·.1 = key) then
    get_params_.map fun elem => if elem.1 = key then (key, value) else elem
  else get_params_ ++ [(key, value)]

def addPair (get_params_ : List (Bytes × Bytes)) (pair : Bytes) :
    Except AssertionFailure (List (Bytes × Bytes)) :=
  match pair.idxOf? 61 with
  | none => .ok get_params_
  | some eq_pos => do
      let key ← UrlDecode (pair.take eq_pos)
      let value ← UrlDecode (pair.drop (eq_pos + 1))
      return setParam get_params_ key value

/-- The loop over the `&` of the query string, and the pair behind the last of them. -/
def parseQuery (get_params_ : List (Bytes × Bytes)) (query_string : Bytes) :
    Except AssertionFailure (List (Bytes × Bytes)) :=
  match hpos : query_string.idxOf? 38 with
  | some pos => do
      let get_params_ ← addPair get_params_ (query_string.take pos)
      parseQuery get_params_ (query_string.drop (pos + 1))
  | none => if query_string = [] then .ok get_params_ else addPair get_params_ query_string
termination_by query_string.length
decreasing_by
  obtain ⟨hlt, -⟩ := List.idxOf?_eq_some_iff.mp hpos
  rw [List.length_drop]
  omega

def PreParseGetParam (con : HttpConnection) : Except AssertionFailure HttpConnection :=
  let uri := con.request_.target
  match uri.idxOf? 63 with
  | none => .ok { con with get_url_ := uri }
  | some query_pos => do
      let get_params_ ← parseQuery con.get_params_ (uri.drop (query_pos + 1))
      return { con with get_url_ := uri.take query_pos, get_params_ := get_params_ }

end HttpConnection

/-! ### The response and the calls -/

inductive HttpStatus where
  | ok
  | not_found
  deriving DecidableEq, Repr

inductive HttpField where
  | content_type
  | server
  deriving DecidableEq, Repr

inductive HttpCall where
  /-- of `response_` -/
  | version (value : Nat)
  | keep_alive (value : Bool)
  | result (status : HttpStatus)
  | set (field : HttpField) (value : String)
  /-- text is written to the body of the response -/
  | write (text : Bytes)
  | WriteResponse
  /-- an iteration over the unordered map -/
  | iterate (get_params_ : List (Bytes × Bytes))
  /-- what `/user_register` and `/reset_pwd` do; all handlers write their documents in this way -/
  | gate (call : GateCall)
  | CheckPwd (name pwd : Bytes)
  | GetVerifyCode (email : Bytes)
  | GetChatServer (uid : Int)

def HttpCall.Answer : HttpCall → Type
  | iterate get_params_ => {order : List (Bytes × Bytes) // order.Perm get_params_}
  | gate call => call.Answer
  | CheckPwd _ _ => Option UserInfo
  | GetVerifyCode _ => GetVerifyRsp
  | GetChatServer _ => GetChatServerRsp
  | _ => Unit

/-- The parameters in the order of their keys in the list. -/
def HttpCall.listed (get_params_ : List (Bytes × Bytes)) : (iterate get_params_).Answer :=
  ⟨get_params_, .refl _⟩

inductive HttpError where
  | assertion (e : AssertionFailure)
  | json (e : LogicError)
  /-- thrown by the JSON reader -/
  | reader
  deriving DecidableEq, Repr

abbrev HttpProgram (α : Type) := Program HttpCall HttpCall.Answer α

abbrev HttpTry (α : Type) := ExceptT HttpError HttpProgram α

abbrev HttpHandler := HttpConnection → HttpTry Unit

abbrev JsonReader := Bytes → Except HttpError (Option JsonValue)

namespace HttpConnection

def call (effect : HttpCall) : HttpTry effect.Answer := ExceptT.lift (Program.perform effect)

def version (value : Nat) : HttpTry Unit := call (.version value)

def keep_alive (value : Bool) : HttpTry Unit := call (.keep_alive value)

def result (status : HttpStatus) : HttpTry Unit := call (.result status)

def set (field : HttpField) (value : String) : HttpTry Unit := call (.set field value)

def write (text : Bytes) : HttpTry Unit := call (.write text)

def WriteResponse : HttpTry Unit := call .WriteResponse

/-- What cannot be completed raises its error. -/
def raising {ε α : Type} (toError : ε → HttpError) (result : Except ε α) : HttpTry α :=
  ExceptT.mk (pure (result.mapError toError))

def performGate (effect : GateCall) : HttpProgram effect.Answer :=
  Program.perform (HttpCall.gate effect)

/-- A handler that only makes the calls of `/user_register` and `/reset_pwd`. -/
def gate {α : Type} (handler : GateHandler α) : HttpTry α :=
  ExceptT.mk do
    let result : Except LogicError α ← handler.run.interp performGate
    return result.mapError .json

end HttpConnection

namespace LogicSystem

open HttpConnection

def writeParams : Nat → List (Bytes × Bytes) → HttpTry Unit
  | _, [] => return
  | i, elem :: rest => do
      write (ascii "param" ++ to_string i ++ ascii "key is" ++ elem.1)
      write (ascii ", " ++ ascii "value is " ++ elem.2 ++ ascii "\n")
      writeParams (i + 1) rest

def get_test : HttpHandler := fun connection => do
  write (ascii "receieve get_test req\n")
  let order ← call (.iterate connection.get_params_)
  writeParams 1 order.val

/-- How every handler of a POST request begins. -/
def readBody (reader : JsonReader) (connection : HttpConnection) : HttpTry (Option JsonValue) := do
  set .content_type "text/json"
  ExceptT.mk (pure (reader connection.request_.body))

def get_verifycode_parsed : Option JsonValue → HttpTry Unit
  | none => gate (respond (errorRoot .Error_Json))
  | some src_root => do
      let email ← raising .json (src_root.field "email")
      let rsp ← call (.GetVerifyCode email)
      let member ← raising .json (src_root.member "email")
      gate (respond (.object [(ascii "error", .int rsp.error), (ascii "email", member)]))

def get_verifycode (reader : JsonReader) : HttpHandler := fun connection => do
  get_verifycode_parsed (← readBody reader connection)

def user_login_parsed : Option JsonValue → HttpTry Unit
  | none => gate (respond (errorRoot .Error_Json))
  | some src_root => do
      let name ← raising .json (src_root.field "user")
      let pwd ← raising .json (src_root.field "passwd")
      match ← call (.CheckPwd name pwd) with
      | none => gate (respond (errorRoot .PasswdInvalid))
      | some userInfo =>
          let reply ← call (.GetChatServer userInfo.uid)
          if reply.error ≠ 0 then
            gate (respond (errorRoot .RPCFailed))
          else
            gate (respond (.object [(ascii "error", .int 0), (ascii "user", .string name),
              (ascii "uid", .int userInfo.uid), (ascii "token", .string reply.token),
              (ascii "host", .string reply.host)]))

def user_login (reader : JsonReader) : HttpHandler := fun connection => do
  user_login_parsed (← readBody reader connection)

def parsing (reader : JsonReader)
    (handler : (Bytes → Option JsonValue) → Bytes → GateHandler Bool) : HttpHandler :=
  fun connection => do
    let src_root ← readBody reader connection
    let _ ← gate (handler (fun _ => src_root) connection.request_.body)

def get_handlers_ : List (Bytes × HttpHandler) := [(ascii "/get_test", get_test)]

def post_handlers_ (cfg : ConfigMgr) (reader : JsonReader) : List (Bytes × HttpHandler) :=
  [(ascii "/get_verifycode", get_verifycode reader),
    (ascii "/user_register", parsing reader (user_register cfg)),
    (ascii "/reset_pwd", parsing reader (reset_pwd cfg)),
    (ascii "/user_login", user_login reader)]

/-- `HandleGet` and `HandlePost`, by the handlers that are registered. -/
def handle (handlers : List (Bytes × HttpHandler)) (path : Bytes) (con : HttpConnection) :
    HttpTry Bool :=
  match handlers.lookup path with
  | none => return false
  | some handler => do
      handler con
      return true

def HandleGet (path : Bytes) (con : HttpConnection) : HttpTry Bool := handle get_handlers_ path con

def HandlePost (cfg : ConfigMgr) (reader : JsonReader) (path : Bytes) (con : HttpConnection) :
    HttpTry Bool :=
  handle (post_handlers_ cfg reader) path con

end LogicSystem

namespace HttpConnection

/-- The response to a request that was dispatched, or not. -/
def finish (success : Bool) (notFound : String) : HttpTry Unit := do
  if ¬ success then
    result .not_found
    set .content_type "text/plain"
    write (ascii notFound)
    WriteResponse
  else
    result .ok
    set .server "GateServer"
    WriteResponse

/-- A request with another method than GET and POST is not answered. -/
def HandleReq (cfg : ConfigMgr) (reader : JsonReader) (con : HttpConnection) : HttpTry Unit := do
  version con.request_.version
  keep_alive false
  match con.request_.method with
  | .get =>
      let con ← raising .assertion con.PreParseGetParam
      let success ← LogicSystem.HandleGet con.get_url_ con
      finish success "url not found \r\n"
  | .post =>
      let success ← LogicSystem.HandlePost cfg reader con.request_.target con
      finish success "url not found\r\n"
  | .other _ => return

end HttpConnection

end QuickChat
