/-
  BinaryCoin — rpc.cpp: a call over HTTP.

  What the client and the server send is a text, and arrives at the other side
  in any pieces (`Delivers`).  Failures of sending, and of the conversion of a
  floating-point error code, are left open.
-/
import BinaryCoin.Http
import BinaryCoin.Lib.Scan

namespace BinaryCoin

open Text

/-- What is thrown: an `RpcError`, or another exception. -/
inductive RpcExn where
  | rpcError (code : Int32) (message : Str)
  | exception (e : Exn)

section
variable {D : Type}

/-- `at` after `contains`, which is false where there is no object. -/
def Json.member (v : Json D) (key : String) : Option (Json D) :=
  match v with
  | .object entries => (entries.find? (·.1 = str key)).map Prod.snd
  | _ => none

structure RpcRequest (D : Type) where
  method : Str
  params : List (Json D)
  id : Json D

def rpcErrorObject (code : Int32) (message : Str) : Json D :=
  .object [(str "code", .integer code.toInt64), (str "message", .string message)]

def RpcExn.object : RpcExn → Json D
  | .rpcError code message => rpcErrorObject code message
  | .exception e => rpcErrorObject (-32603) (str e.what)

def statusLine (status : ℕ) (reason : String) : Str :=
  str "HTTP/1.1 " ++ decimal status ++ 32 :: str reason

def responseFields (body : Str) : List (String × Str) :=
  [("Content-Type", str "application/json"), ("Content-Length", decimal body.length),
    ("Connection", str "close")]

def httpResponse (status : ℕ) (reason : String) (body : Str) : Str :=
  httpText (statusLine status reason) (responseFields body) body

variable [Double D]

/-! ## The server -/

/-- The body of a response; its members are in the order of the map. -/
def rpcResponse (result error id : Json D) : Str :=
  (Json.object [(str "error", error), (str "id", id), (str "result", result)]).dump false 0

/-- A function that throws, called while the request's id is known. -/
def liftExn {α : Type} (x : Except RpcExn α) : EStateM RpcExn (Json D) α := fun id =>
  match x with
  | .ok a => .ok a id
  | .error e => .error e id

/-- `handle_client` once the request has been received.  The state is the request's id. -/
def answer (cookie : Str) (handler : RpcRequest D → Except RpcExn (Json D)) (http : HttpMessage) :
    EStateM RpcExn (Json D) Str := do
  if ¬ str "POST " <+: http.startLine then
    return httpResponse 405 "Method Not Allowed" (str "{}")
  let expected := str "Basic " ++ base64Encode cookie
  if findField http.headers (str "authorization") ≠ some expected then
    return httpResponse 401 "Unauthorized" (str "{}")
  let requestJson ← liftExn ((Json.parse http.body).mapError .exception)
  match requestJson with
  | .object _ => pure ()
  | _ => throw (.rpcError (-32600) (str "Invalid Request"))
  match requestJson.member "id" with
  | some id => set id
  | none => pure ()
  let method ← (match requestJson.member "method" with
    | some (.string method) => pure method
    | _ => throw (.rpcError (-32600) (str "RPC method must be a string")))
  let params ← (match requestJson.member "params" with
    | none => pure []
    | some (.array params) => pure params
    | some _ => throw (.rpcError (-32602) (str "RPC params must be an array")))
  let result ← liftExn (handler ⟨method, params, ← get⟩)
  return httpResponse 200 "OK" (rpcResponse result .null (← get))

def errorResponse (e : RpcExn) (id : Json D) : Str :=
  httpResponse 500 "Internal Server Error" (rpcResponse .null e.object id)

/-- What is sent back. -/
def handleClient (cookie : Str) (handler : RpcRequest D → Except RpcExn (Json D))
    (deliveries : List Delivery) : Str :=
  match receiveHttp.run deliveries with
  | .error e _ => errorResponse (.exception e) (.null : Json D)
  | .ok http _ =>
    match (answer cookie handler http).run .null with
    | .ok response _ => response
    | .error e id => errorResponse e id

/-! ## The client -/

def rpcRequestBody (method : Str) (params : List (Json D)) : Str :=
  (Json.object [(str "id", .string (str "binarycoin-cli")), (str "jsonrpc", .string (str "1.0")),
    (str "method", .string method), (str "params", .array params)]).dump false 0

def requestFields (host cookie body : Str) : List (String × Str) :=
  [("Host", host), ("Authorization", str "Basic " ++ base64Encode cookie),
    ("Content-Type", str "application/json"), ("Content-Length", decimal body.length),
    ("Connection", str "close")]

/-- What `rpc_call` sends. -/
def rpcRequest (host cookie body : Str) : Str :=
  httpText (str "POST / HTTP/1.1") (requestFields host cookie body) body

/-- `as_integer`; `truncate` is the conversion of a floating-point number. -/
def Json.asInteger (truncate : D → Int64) (v : Json D) : Except Exn Int64 :=
  match v with
  | .integer value => return value
  | .number value => return truncate value
  | _ => throw (runtimeError "JSON value is not an integer")

def Json.asString (v : Json D) : Except Exn Str :=
  match v with
  | .string value => return value
  | _ => throw (runtimeError "JSON value is not a string")

/-- The exception for a response with an error. -/
def errorOf (truncate : D → Int64) (error : Json D) : Except Exn RpcExn := do
  let code ← (match error.member "code" with
    | some code => return (← code.asInteger truncate).toInt32
    | none => return -32603)
  let message ← (match error.member "message" with
    | some message => message.asString
    | none => return str "Unknown RPC error")
  return .rpcError code message

/-- What `rpc_call` makes of the response. -/
def rpcResult (truncate : D → Int64) (response : HttpMessage) : Except RpcExn (Json D) := do
  let parsed ← (Json.parse response.body).mapError .exception
  match parsed.member "result", parsed.member "error" with
  | some result, some .null => return result
  | some _, some error => throw (← (errorOf truncate error).mapError .exception)
  | _, _ => throw (.exception (runtimeError "Malformed response from BinaryCoin RPC server"))

/-- What `rpc_call` returns, from what it receives. -/
def rpcCall (truncate : D → Int64) (deliveries : List Delivery) : Except RpcExn (Json D) :=
  match receiveHttp.run deliveries with
  | .error e _ => .error (.exception e)
  | .ok response _ => rpcResult truncate response

end

/-! ## The messages -/

section
variable {status : ℕ} {reason : String} {body host cookie method : Str} {deliveries : List Delivery}

theorem base64Digit_char : ∀ index : UInt8, ¬ isTrailing (base64Digit index) := by decide +kernel

theorem base64Encode_char : ∀ input : Str, ∀ c ∈ base64Encode input, ¬ isTrailing c
  | a :: b :: c :: rest => by
    intro x hx
    simp only [base64Encode, List.mem_cons] at hx
    obtain rfl | rfl | rfl | rfl | hx := hx
    · exact base64Digit_char _
    · exact base64Digit_char _
    · exact base64Digit_char _
    · exact base64Digit_char _
    · exact base64Encode_char rest x hx
  | [a, b] => by
    intro x hx
    simp only [base64Encode, List.mem_cons, List.not_mem_nil, or_false] at hx
    obtain rfl | rfl | rfl | rfl := hx
    · exact base64Digit_char _
    · exact base64Digit_char _
    · exact base64Digit_char _
    · decide
  | [a] => by
    intro x hx
    simp only [base64Encode, List.mem_cons, List.not_mem_nil, or_false] at hx
    obtain rfl | rfl | rfl | rfl := hx
    · exact base64Digit_char _
    · exact base64Digit_char _
    · decide
    · decide
  | [] => by simp [base64Encode]

theorem base64Encode_ne_nil {input : Str} (h : input ≠ []) : base64Encode input ≠ [] := by
  cases input using base64Encode.induct <;> simp_all [base64Encode]

/-- The authorization that the server expects is what it reads, unless the cookie is empty. -/
theorem trim_authorization : trim (str "Basic " ++ base64Encode cookie) =
    str "Basic " ++ base64Encode cookie ↔ cookie ≠ [] := by
  constructor
  · rintro h rfl
    revert h
    decide
  · intro h
    obtain ⟨init, last, hlast⟩ := (base64Encode cookie).eq_nil_or_concat.resolve_left
      (base64Encode_ne_nil h)
    have hchar : ¬ isTrailing last := base64Encode_char cookie last (by rw [hlast]; simp)
    rw [hlast, List.concat_eq_append, ← List.append_assoc, trim, List.rdropWhile_concat_neg _ _ _ hchar]
    rfl

theorem trim_decimal (n : ℕ) : trim (decimal n) = decimal n := by
  refine trim_of_forall fun c hc => ?_
  have hdigit : ∀ c : UInt8, isDigit c = true → ¬ isTrailing c := by decide +kernel
  exact hdigit c (decimal_digits n c hc)

theorem nameOk_of {name : String} (hne : str name ≠ [])
    (h : (str name).all (fun c => ¬ isTrailing c ∧ c ≠ 58)) : NameOk (str name) := by
  refine ⟨hne, fun c hc => ?_⟩
  simpa using List.all_eq_true.1 h c hc

theorem nameOk_variable : NameOk (str "Host") ∧ NameOk (str "Authorization") ∧
    NameOk (str "Content-Length") :=
  ⟨nameOk_of (by decide) (by decide +kernel), nameOk_of (by decide) (by decide +kernel),
    nameOk_of (by decide) (by decide +kernel)⟩

/-- The fields that do not depend on the message. -/
theorem fieldOk_constant : FieldOk ("Content-Type", str "application/json") ∧
    FieldOk ("Connection", str "close") :=
  ⟨⟨nameOk_of (by decide) (by decide +kernel), by decide +kernel, by decide +kernel⟩,
    ⟨nameOk_of (by decide) (by decide +kernel), by decide +kernel, by decide +kernel⟩⟩

theorem fieldOk_decimal (n : ℕ) : FieldOk ("Content-Length", decimal n) :=
  ⟨nameOk_variable.2.2, not_mem_decimal (by unfold IsDigit; decide) n,
    not_mem_decimal (by unfold IsDigit; decide) n⟩

/-- **A response can be written.** -/
theorem httpOk_response (hstart : LineOk (statusLine status reason)) (body : Str) :
    HttpOk (statusLine status reason) (responseFields body) body := by
  refine ⟨hstart, ?_, ?_⟩
  · simp only [responseFields, List.forall_mem_cons, List.not_mem_nil, false_implies, implies_true,
      and_true]
    exact ⟨fieldOk_constant.1, fieldOk_decimal _, fieldOk_constant.2⟩
  · have hclose : lowerAscii (str "Connection") ≠ str "content-length" := by decide
    have hlength : lowerAscii (str "Content-Length") = str "content-length" := by decide
    simp only [headersOf, responseFields, List.foldl_cons, List.foldl_nil, findField_insertOrAssign,
      if_neg hclose, if_pos hlength, trim_decimal]

theorem httpOk_request (hcr : 13 ∉ host) (hlf : 10 ∉ host) (cookie body : Str) :
    HttpOk (str "POST / HTTP/1.1") (requestFields host cookie body) body := by
  have hbase64 : ∀ c, isTrailing c → c ∉ str "Basic " → c ∉ str "Basic " ++ base64Encode cookie := by
    intro c hc hbasic hmem
    exact base64Encode_char cookie c ((List.mem_append.1 hmem).resolve_left hbasic) hc
  refine ⟨⟨by decide, by decide, by decide⟩, ?_, ?_⟩
  · simp only [requestFields, List.forall_mem_cons, List.not_mem_nil, false_implies, implies_true,
      and_true]
    exact ⟨⟨nameOk_variable.1, hcr, hlf⟩,
      ⟨nameOk_variable.2.1, hbase64 13 (by decide) (by decide),
        hbase64 10 (by decide) (by decide)⟩,
      fieldOk_constant.1, fieldOk_decimal _, fieldOk_constant.2⟩
  · have hclose : lowerAscii (str "Connection") ≠ str "content-length" := by decide
    have hlength : lowerAscii (str "Content-Length") = str "content-length" := by decide
    simp only [headersOf, requestFields, List.foldl_cons, List.foldl_nil, findField_insertOrAssign,
      if_neg hclose, if_pos hlength, trim_decimal]

/-- The authorization that the server finds. -/
theorem findField_authorization : findField (headersOf (requestFields host cookie body) [])
    (str "authorization") = some (trim (str "Basic " ++ base64Encode cookie)) := by
  have hclose : lowerAscii (str "Connection") ≠ str "authorization" := by decide
  have hlength : lowerAscii (str "Content-Length") ≠ str "authorization" := by decide
  have htype : lowerAscii (str "Content-Type") ≠ str "authorization" := by decide
  have hauthorization : lowerAscii (str "Authorization") = str "authorization" := by decide
  simp only [headersOf, requestFields, List.foldl_cons, List.foldl_nil, findField_insertOrAssign,
    if_neg hclose, if_neg hlength, if_neg htype, if_pos hauthorization]

/-- A short header block fits, however it is delivered. -/
theorem Delivers.fits {text : Str} {size : ℕ} (h : Delivers deliveries text)
    (hsize : size ≤ maxRpcRequest - 4096) : Fits size deliveries 0 := by
  intro before chunk after heq hlt
  have hchunk := (h.chunk chunk (by rw [heq]; simp)).2
  have hmax : 4096 ≤ maxRpcRequest := by decide
  omega

/-- **A response is received** exactly if its body does not exceed the limit. -/
theorem receiveHttp_response (hstart : LineOk (statusLine status reason))
    (hlength : (statusLine status reason).length ≤ 1000)
    (h : Delivers deliveries (httpResponse status reason body)) :
    (body.length ≤ maxRpcRequest → ∃ http deliveries',
      receiveHttp.run deliveries = .ok http deliveries' ∧ http.body = body) ∧
    (¬ body.length ≤ maxRpcRequest → ∃ e deliveries', receiveHttp.run deliveries = .error e deliveries') := by
  obtain ⟨hok, herror⟩ := receiveHttp_run (httpOk_response hstart body) h
  constructor
  · intro hbody
    have hsize : headerSize (statusLine status reason) (responseFields body) ≤ maxRpcRequest - 4096 := by
      have hdecimal : (decimal body.length).length ≤ 7 := length_decimal (by norm_num)
        (Nat.lt_of_le_of_lt hbody (by decide))
      have hmax : maxRpcRequest - 4096 = 1044480 := rfl
      have hstr : (str "application/json").length = 16 ∧ (str "close").length = 5 ∧
          (str "Content-Type").length = 12 ∧ (str "Content-Length").length = 14 ∧
          (str "Connection").length = 10 := by decide
      simp only [headerSize, headerBlock, responseFields, List.map_cons, List.map_nil, fieldLine,
        List.intercalate_cons_of_ne_nil (List.cons_ne_nil _ _), List.intercalate_singleton,
        List.length_append, List.length_cons, hstr, crlf, List.length_nil]
      omega
    obtain ⟨deliveries', hrun⟩ := hok ⟨h.fits hsize, hbody⟩
    exact ⟨_, _, hrun, rfl⟩
  · intro hbody
    exact herror fun hboth => hbody hboth.2

end

/-! ## The call of the handler -/

section
variable {D : Type} [Double D]

/-- `answer` up to the call of the handler: a response, or the request for it. -/
def handlerRequest (cookie : Str) (http : HttpMessage) :
    EStateM RpcExn (Json D) (Str ⊕ RpcRequest D) := do
  if ¬ str "POST " <+: http.startLine then
    return .inl (httpResponse 405 "Method Not Allowed" (str "{}"))
  let expected := str "Basic " ++ base64Encode cookie
  if findField http.headers (str "authorization") ≠ some expected then
    return .inl (httpResponse 401 "Unauthorized" (str "{}"))
  let requestJson ← liftExn ((Json.parse http.body).mapError .exception)
  match requestJson with
  | .object _ => pure ()
  | _ => throw (.rpcError (-32600) (str "Invalid Request"))
  match requestJson.member "id" with
  | some id => set id
  | none => pure ()
  let method ← (match requestJson.member "method" with
    | some (.string method) => pure method
    | _ => throw (.rpcError (-32600) (str "RPC method must be a string")))
  let params ← (match requestJson.member "params" with
    | none => pure []
    | some (.array params) => pure params
    | some _ => throw (.rpcError (-32602) (str "RPC params must be an array")))
  return .inr ⟨method, params, ← get⟩

/-- The rest of `answer`. -/
def callHandler (handler : RpcRequest D → Except RpcExn (Json D)) :
    Str ⊕ RpcRequest D → EStateM RpcExn (Json D) Str
  | .inl response => return response
  | .inr request => do
    let result ← liftExn (handler request)
    return httpResponse 200 "OK" (rpcResponse result .null (← get))

theorem answer_eq (cookie : Str) (handler : RpcRequest D → Except RpcExn (Json D))
    (http : HttpMessage) :
    answer cookie handler http = handlerRequest cookie http >>= callHandler handler := by
  funext id
  rw [answer, handlerRequest]
  by_cases hstart : str "POST " <+: http.startLine
  swap
  · rw [if_pos hstart, if_pos hstart]
    rfl
  by_cases hauthorization : findField http.headers (str "authorization") =
      some (str "Basic " ++ base64Encode cookie)
  swap
  · simp only [hstart, not_true, if_false, ne_eq, hauthorization, not_false_eq_true, if_true]
    rfl
  simp only [hstart, not_true, if_false, ne_eq, hauthorization]
  cases hparse : (Json.parse http.body : Except Exn (Json D)) with
  | error e => rfl
  | ok requestJson =>
    cases requestJson with
    | object entries =>
      -- the three members decide which error there is, if there is one
      simp only [Except.mapError, liftExn, bind, EStateM.bind]
      cases (Json.object entries).member "id" <;>
        rcases (Json.object entries).member "method" with - | _ | _ | _ | _ | _ | _ | _ <;>
        first
        | rfl
        | rcases (Json.object entries).member "params" with - | _ | _ | _ | _ | _ | _ | _ <;> rfl
    | _ => rfl

end

/-! ## A call -/

section
variable {D : Type} [Double D] {host cookie method body : Str}
  {params params' : List (Json D)} {result id : Json D} {truncate : D → Int64}
  {handler : RpcRequest D → Except RpcExn (Json D)} {toServer toClient : List Delivery}

/-- The id of every request. -/
def requestId : Json D := .string (str "binarycoin-cli")

/-- The request that the server parses. -/
theorem parse_rpcRequestBody (h : List.Forall₂ (ReadAs false) params params') :
    Json.parse (rpcRequestBody method params) = .ok (.object [(str "id", requestId),
      (str "jsonrpc", .string (str "1.0")), (str "method", .string method),
      (str "params", .array params')]) := by
  have hstring : ∀ value : Str, ReadAs false (.string value : Json D) (.string value) := fun value =>
    dump_value (.string value) false
  refine (ReadAs.object (by simp only [List.map_cons, List.map_nil]; decide +kernel) ?_).parse
  exact .cons ⟨rfl, hstring _⟩ (.cons ⟨rfl, hstring _⟩ (.cons ⟨rfl, hstring _⟩
    (.cons ⟨rfl, .array h⟩ .nil)))

/-- The response that the client parses. -/
theorem parse_rpcResponse {error : Json D} (herror : error.Plain) (hid : id.Plain)
    (hresult : result.Plain) : Json.parse (rpcResponse result error id) =
      .ok (.object [(str "error", error), (str "id", id), (str "result", result)]) := by
  refine parse_dump (.object (by simp only [List.map_cons, List.map_nil]; decide +kernel) ?_) false
  simp only [List.forall_mem_cons, List.not_mem_nil, false_implies, implies_true, and_true]
  exact ⟨herror, hid, hresult⟩

/-- A request that is authorized is passed on. -/
theorem handlerRequest_run {cookie : Str} {http : HttpMessage} (hstart : str "POST " <+: http.startLine)
    (hbody : http.body = rpcRequestBody method params)
    (hauthorization : findField http.headers (str "authorization") =
      some (str "Basic " ++ base64Encode cookie))
    (hparams : List.Forall₂ (ReadAs false) params params') :
    (handlerRequest cookie http).run .null = .ok (.inr ⟨method, params', requestId⟩) requestId := by
  have hid : Json.member (.object [(str "id", (requestId : Json D)), (str "jsonrpc", .string (str "1.0")),
      (str "method", .string method), (str "params", .array params')]) "id" = some requestId := rfl
  have hmethod : Json.member (.object [(str "id", (requestId : Json D)),
      (str "jsonrpc", .string (str "1.0")), (str "method", .string method),
      (str "params", .array params')]) "method" = some (.string method) := rfl
  have hmember : Json.member (.object [(str "id", (requestId : Json D)),
      (str "jsonrpc", .string (str "1.0")), (str "method", .string method),
      (str "params", .array params')]) "params" = some (.array params') := rfl
  simp only [handlerRequest, hstart, not_true, if_false, hauthorization, ne_eq, hbody,
    parse_rpcRequestBody hparams]
  simp only [Except.mapError, EStateM.run, bind, EStateM.bind, liftExn, hid, hmethod, hmember, pure,
    EStateM.pure, set, MonadStateOf.set, EStateM.set, get, getThe, MonadStateOf.get, EStateM.get]

/-- The server answers a request that it has received and that is authorized. -/
theorem answer_run {http : HttpMessage} (hstart : str "POST " <+: http.startLine)
    (hbody : http.body = rpcRequestBody method params)
    (hauthorization : findField http.headers (str "authorization") =
      some (str "Basic " ++ base64Encode cookie))
    (hparams : List.Forall₂ (ReadAs false) params params')
    (hhandler : handler ⟨method, params', requestId⟩ = .ok result) :
    (answer cookie handler http).run .null =
      .ok (httpResponse 200 "OK" (rpcResponse result .null requestId)) requestId := by
  rw [answer_eq, run_bind_of_ok (handlerRequest_run hstart hbody hauthorization hparams)]
  simp only [callHandler, hhandler, EStateM.run, bind, EStateM.bind, liftExn]
  rfl

/-- A request that is not authorized is answered with an empty object. -/
theorem answer_unauthorized {http : HttpMessage} (hstart : str "POST " <+: http.startLine)
    (hauthorization : findField http.headers (str "authorization") ≠
      some (str "Basic " ++ base64Encode cookie)) :
    (answer cookie handler http).run .null =
      .ok (httpResponse 401 "Unauthorized" (str "{}")) .null := by
  simp only [answer, hstart, not_true, if_false, hauthorization, ne_eq, not_false_eq_true, if_true]
  rfl

theorem rpcResult_result {http : HttpMessage} (hid : id.Plain) (hresult : result.Plain)
    (h : http.body = rpcResponse result .null id) : rpcResult truncate http = .ok result := by
  rw [rpcResult, h, parse_rpcResponse .null hid hresult]
  rfl

omit [Double D] in
theorem object_plain (e : RpcExn) : (e.object : Json D).Plain := by
  have hplain : ∀ code message, (rpcErrorObject code message : Json D).Plain := by
    intro code message
    refine .object (by simp only [List.map_cons, List.map_nil]; decide +kernel) ?_
    simp only [List.forall_mem_cons, List.not_mem_nil, false_implies, implies_true, and_true]
    exact ⟨.integer _, .string _⟩
  cases e with
  | rpcError code message => exact hplain code message
  | exception e => exact hplain _ _

theorem rpcResult_error {http : HttpMessage} {e : RpcExn} (hid : id.Plain)
    (h : http.body = rpcResponse .null e.object id) : rpcResult truncate http ≠ .ok result := by
  rw [rpcResult, h, parse_rpcResponse (object_plain e) hid .null]
  cases e <;> exact nofun

theorem rpcResult_empty {http : HttpMessage} (h : http.body = str "{}") :
    rpcResult truncate http ≠ .ok result := by
  have hplain : (Json.object [] : Json D).Plain := .object .nil (by simp)
  have hparse : Json.parse (str "{}") = .ok (.object [] : Json D) := parse_dump hplain false
  rw [rpcResult, h, hparse]
  exact nofun

/-- A call whose response has no result fails. -/
theorem rpcCall_ne {status : ℕ} {reason : String} (hstart : LineOk (statusLine status reason))
    (hlength : (statusLine status reason).length ≤ 1000)
    (h : Delivers toClient (httpResponse status reason body))
    (hbody : ∀ http : HttpMessage, http.body = body → rpcResult truncate http ≠ .ok result) :
    rpcCall truncate toClient ≠ .ok result := by
  obtain ⟨hok, herror⟩ := receiveHttp_response hstart hlength h
  rw [rpcCall]
  by_cases hle : body.length ≤ maxRpcRequest
  · obtain ⟨http, deliveries', hrun, heq⟩ := hok hle
    rw [hrun]
    exact hbody http heq
  · obtain ⟨e, deliveries', hrun⟩ := herror hle
    rw [hrun]
    exact nofun

theorem length_rpcResponse (result : Json D) : (rpcResponse result .null requestId).length =
    (result.dump false 2).length + 46 := by
  have hstr : str "null" = [110, 117, 108, 108] ∧ jsonEscape (str "error") = str "error" ∧
      jsonEscape (str "id") = str "id" ∧ jsonEscape (str "result") = str "result" ∧
      jsonEscape (str "binarycoin-cli") = str "binarycoin-cli" ∧ (str "error").length = 5 ∧
      (str "id").length = 2 ∧ (str "result").length = 6 ∧ (str "binarycoin-cli").length = 14 := by
    decide +kernel
  simp only [rpcResponse, requestId, Json.dump, dumpEntries, lineStart, hstr, List.length_append,
    List.length_cons, List.length_nil]
  simp only [Bool.false_eq_true, if_false, List.length_nil, List.length_cons, zero_add]
  omega

/-- The server answers a request whose cookie is not empty. -/
theorem handleClient_ok (hcr : 13 ∉ host) (hlf : 10 ∉ host) (hcookie : cookie ≠ [])
    (hbody : (rpcRequestBody method params).length ≤ maxRpcRequest)
    (hparams : List.Forall₂ (ReadAs false) params params')
    (hhandler : handler ⟨method, params', requestId⟩ = .ok result)
    (hrequest : Delivers toServer (rpcRequest host cookie (rpcRequestBody method params)))
    (hfits : Fits (headerSize (str "POST / HTTP/1.1")
      (requestFields host cookie (rpcRequestBody method params))) toServer 0) :
    handleClient cookie handler toServer =
      httpResponse 200 "OK" (rpcResponse result .null requestId) := by
  obtain ⟨hok, -⟩ := receiveHttp_run
    (httpOk_request hcr hlf cookie (rpcRequestBody method params)) hrequest
  obtain ⟨deliveries, hrun⟩ := hok ⟨hfits, hbody⟩
  have hstart : str "POST " <+: trim (str "POST / HTTP/1.1") := by decide
  have hauthorization : findField (headersOf (requestFields host cookie
      (rpcRequestBody method params)) []) (str "authorization") =
      some (str "Basic " ++ base64Encode cookie) :=
    findField_authorization.trans (congrArg some (trim_authorization.2 hcookie))
  have hanswer : (answer cookie handler ⟨trim (str "POST / HTTP/1.1"), headersOf (requestFields host
      cookie (rpcRequestBody method params)) [], rpcRequestBody method params⟩).run .null =
      .ok (httpResponse 200 "OK" (rpcResponse result .null requestId)) requestId :=
    answer_run hstart rfl hauthorization hparams hhandler
  rw [handleClient, hrun]
  dsimp only
  rw [hanswer]

theorem lineOk_ok : LineOk (statusLine 200 "OK") := ⟨by decide, by decide, by decide⟩

/-- **A result is delivered** exactly if the cookie is not empty, the response's body does not exceed
    the limit for requests, and neither does what the server receives with the header block. -/
theorem rpc_delivers_iff (hcr : 13 ∉ host) (hlf : 10 ∉ host)
    (hbody : (rpcRequestBody method params).length ≤ maxRpcRequest)
    (hparams : List.Forall₂ (ReadAs false) params params') (hresult : result.Plain)
    (hhandler : handler ⟨method, params', requestId⟩ = .ok result)
    (hrequest : Delivers toServer (rpcRequest host cookie (rpcRequestBody method params)))
    (hresponse : Delivers toClient (handleClient cookie handler toServer)) :
    rpcCall truncate toClient = .ok result ↔
      cookie ≠ [] ∧ (result.dump false 2).length + 46 ≤ maxRpcRequest ∧
      Fits (headerSize (str "POST / HTTP/1.1")
        (requestFields host cookie (rpcRequestBody method params))) toServer 0 := by
  obtain ⟨hok, herror⟩ := receiveHttp_run
    (httpOk_request hcr hlf cookie (rpcRequestBody method params)) hrequest
  have hid : (requestId : Json D).Plain := .string _
  by_cases hfits : Fits (headerSize (str "POST / HTTP/1.1")
      (requestFields host cookie (rpcRequestBody method params))) toServer 0
  swap
  · obtain ⟨e, deliveries, hrun⟩ := herror fun h => hfits h.1
    rw [handleClient, hrun] at hresponse
    have hne : rpcCall truncate toClient ≠ .ok result :=
      rpcCall_ne ⟨by decide, by decide, by decide⟩ (by decide) hresponse fun http h =>
        rpcResult_error .null h
    exact ⟨fun h => absurd h hne, fun h => absurd h.2.2 hfits⟩
  by_cases hcookie : cookie = []
  · have hunauthorized : some (trim (str "Basic " ++ base64Encode cookie)) ≠
        some (str "Basic " ++ base64Encode cookie) := fun h =>
      trim_authorization.1 (Option.some.inj h) hcookie
    obtain ⟨deliveries, hrun⟩ := hok ⟨hfits, hbody⟩
    rw [handleClient, hrun] at hresponse
    have hstart : str "POST " <+: trim (str "POST / HTTP/1.1") := by decide
    have hanswer : (answer cookie handler ⟨trim (str "POST / HTTP/1.1"), headersOf (requestFields host
        cookie (rpcRequestBody method params)) [], rpcRequestBody method params⟩).run .null =
        .ok (httpResponse 401 "Unauthorized" (str "{}")) .null :=
      answer_unauthorized hstart (findField_authorization.trans_ne hunauthorized)
    dsimp only at hresponse
    rw [hanswer] at hresponse
    have hne : rpcCall truncate toClient ≠ .ok result :=
      rpcCall_ne ⟨by decide, by decide, by decide⟩ (by decide) hresponse fun http h =>
        rpcResult_empty h
    exact ⟨fun h => absurd h hne, fun h => absurd hcookie h.1⟩
  · rw [handleClient_ok hcr hlf hcookie hbody hparams hhandler hrequest hfits] at hresponse
    obtain ⟨hok, herror⟩ := receiveHttp_response lineOk_ok (by decide) hresponse
    rw [length_rpcResponse] at hok herror
    rw [rpcCall]
    by_cases hle : (result.dump false 2).length + 46 ≤ maxRpcRequest
    · obtain ⟨http, deliveries', hrun', heq⟩ := hok hle
      rw [hrun']
      exact ⟨fun _ => ⟨hcookie, hle, hfits⟩, fun _ => rpcResult_result hid hresult heq⟩
    · obtain ⟨e, deliveries', hrun'⟩ := herror hle
      rw [hrun']
      exact ⟨nofun, fun h => absurd h.2.1 hle⟩

end

/-! ## A result that is lost -/

/-- A text that arrives byte by byte. -/
def byteByByte (text : Str) : List Delivery := text.map fun c => .bytes [c]

theorem byteByByte_delivers (text : Str) : Delivers (byteByByte text) text := by
  constructor
  · induction text with
    | nil => rfl
    | cons c text ih => exact congrArg (c :: ·) ih
  · intro chunk hmem
    obtain ⟨c, -, heq⟩ := List.mem_map.1 hmem
    rw [← Delivery.bytes.inj heq]
    exact ⟨List.cons_ne_nil _ _, by simp⟩

/-- A string of 1 MiB. -/
def longResult : Json Empty := .string (List.replicate maxRpcRequest 97)

theorem length_longResult : (longResult.dump false 2).length = maxRpcRequest + 2 := by
  have hescape : ∀ n, jsonEscape (List.replicate n 97) = List.replicate n 97 := by
    intro n
    induction n with
    | zero => rfl
    | succ n ih =>
      rw [List.replicate_succ, jsonEscape, List.flatMap_cons]
      exact congrArg (97 :: ·) ih
  rw [longResult, Json.dump, hescape, List.length_append, List.length_cons, List.length_replicate]
  rfl

def sampleHost : Str := str "127.0.0.1"

def sampleCookie : Str := str "__cookie__:00"

def sampleMethod : Str := str "getblockcount"

/-- A handler with one result. -/
def always (result : Json Empty) (_ : RpcRequest Empty) : Except RpcExn (Json Empty) := .ok result

/-- What the server receives, and what the client does when a result is returned. -/
def sampleRequest : List Delivery :=
  byteByByte (rpcRequest sampleHost sampleCookie (rpcRequestBody sampleMethod ([] : List (Json Empty))))

def sampleResponse (result : Json Empty) : List Delivery :=
  byteByByte (handleClient sampleCookie (always result) sampleRequest)

/-- What has to be known of the request. -/
structure SampleFacts : Prop where
  cr : 13 ∉ sampleHost
  lf : 10 ∉ sampleHost
  cookie : sampleCookie ≠ []
  body : (rpcRequestBody sampleMethod ([] : List (Json Empty))).length ≤ maxRpcRequest
  size : headerSize (str "POST / HTTP/1.1") (requestFields sampleHost sampleCookie
    (rpcRequestBody sampleMethod ([] : List (Json Empty)))) ≤ maxRpcRequest - 4096

theorem sampleFacts : SampleFacts := by constructor <;> decide +kernel

theorem sampleRequest_delivers : Delivers sampleRequest
    (rpcRequest sampleHost sampleCookie (rpcRequestBody sampleMethod ([] : List (Json Empty)))) :=
  byteByByte_delivers _

theorem sampleResponse_delivers (result : Json Empty) : Delivers (sampleResponse result)
    (handleClient sampleCookie (always result) sampleRequest) :=
  byteByByte_delivers _

/-- The number of blocks is delivered. -/
theorem rpc_delivers_count :
    rpcCall Empty.elim (sampleResponse (.integer 144)) = .ok (.integer 144) := by
  have hlength : ((Json.integer 144 : Json Empty).dump false 2).length + 46 ≤ maxRpcRequest := by
    decide +kernel
  exact (rpc_delivers_iff sampleFacts.cr sampleFacts.lf sampleFacts.body .nil (.integer 144) rfl
    sampleRequest_delivers (sampleResponse_delivers (.integer 144))).2
    ⟨sampleFacts.cookie, hlength, sampleRequest_delivers.fits sampleFacts.size⟩

/-- A result of 1 MiB is not, although the request is. -/
theorem rpc_result_lost :
    (Delivers sampleRequest (rpcRequest sampleHost sampleCookie
      (rpcRequestBody sampleMethod ([] : List (Json Empty)))) ∧
    Delivers (sampleResponse longResult) (handleClient sampleCookie (always longResult) sampleRequest) ∧
    (rpcRequestBody sampleMethod ([] : List (Json Empty))).length ≤ maxRpcRequest ∧
    13 ∉ sampleHost ∧ 10 ∉ sampleHost ∧ longResult.Plain) ∧
    rpcCall Empty.elim (sampleResponse longResult) ≠ .ok longResult := by
  refine ⟨⟨sampleRequest_delivers, sampleResponse_delivers longResult, sampleFacts.body,
    sampleFacts.cr, sampleFacts.lf, .string _⟩, ?_⟩
  have hresponse := sampleResponse_delivers longResult
  rw [handleClient_ok sampleFacts.cr sampleFacts.lf sampleFacts.cookie sampleFacts.body .nil rfl
    sampleRequest_delivers (sampleRequest_delivers.fits sampleFacts.size)] at hresponse
  obtain ⟨-, herror⟩ := receiveHttp_response lineOk_ok (by decide) hresponse
  rw [length_rpcResponse, length_longResult] at herror
  obtain ⟨e, deliveries, hrun⟩ := herror (by omega)
  rw [rpcCall, hrun]
  exact nofun

end BinaryCoin
