import QuickChat.Gate.HttpConnection

/-!
# The response

`response_` as the calls of a request change it, and the responses that are written. The documents that
the handlers write stay documents here: their text is up to the JSON library, and with it the content
length.
-/

namespace QuickChat

inductive BodyPart where
  | text (text : Bytes)
  | document (root : JsonValue)

structure HttpResponse where
  version : Nat
  keep_alive : Bool
  result : HttpStatus
  content_type : Option String
  server : Option String
  body : List BodyPart

def HttpResponse.init : HttpResponse := ⟨11, true, .ok, none, none, []⟩

def HttpResponse.set (response_ : HttpResponse) : HttpField → String → HttpResponse
  | .content_type, value => { response_ with content_type := some value }
  | .server, value => { response_ with server := some value }

def HttpResponse.write (response_ : HttpResponse) (part : BodyPart) : HttpResponse :=
  { response_ with body := response_.body ++ [part] }

structure HttpExchange where
  response_ : HttpResponse
  written : List HttpResponse

namespace HttpExchange

def init : HttpExchange := ⟨.init, []⟩

/-- What a call does to the response. `WriteResponse` writes it as it is then. -/
def observe (exchange : HttpExchange) (effect : HttpCall) (_ : effect.Answer) : HttpExchange :=
  match effect with
  | .version value => { exchange with response_ := { exchange.response_ with version := value } }
  | .keep_alive value =>
      { exchange with response_ := { exchange.response_ with keep_alive := value } }
  | .result status => { exchange with response_ := { exchange.response_ with result := status } }
  | .set field value => { exchange with response_ := exchange.response_.set field value }
  | .write text => { exchange with response_ := exchange.response_.write (.text text) }
  | .gate (.respond root) =>
      { exchange with response_ := exchange.response_.write (.document root) }
  | .WriteResponse => { exchange with written := exchange.written ++ [exchange.response_] }
  | _ => exchange

def after (trace : List ((effect : HttpCall) × effect.Answer)) : HttpExchange :=
  trace.foldl (fun exchange entry => exchange.observe entry.1 entry.2) init

end HttpExchange

end QuickChat
