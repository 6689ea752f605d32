/-
  BinaryCoin — rpc.cpp: who gets to the handler.

  The cookie is sent in base64.  Two cookies with one text would be one cookie,
  so decoding (RFC 4648) is written here, for the proofs only: the server
  compares texts.
-/
import BinaryCoin.Rpc

namespace BinaryCoin

open Text Cursor

/-! ## Base64 -/

/-- The value of a digit in the alphabet of RFC 4648. -/
def base64Value (c : UInt8) : Option UInt8 :=
  if 65 ≤ c ∧ c ≤ 90 then some (c - 65)
  else if 97 ≤ c ∧ c ≤ 122 then some (c - 71)
  else if 48 ≤ c ∧ c ≤ 57 then some (c + 4)
  else if c = 43 then some 62
  else if c = 47 then some 63
  else none

/-- RFC 4648 decoding.  The bits that padding leaves unused have to be zero. -/
def base64Decode : Str → Option Str
  | [] => some []
  | p :: q :: r :: s :: rest =>
    if r = 61 ∧ s = 61 ∧ rest = [] then do
      let x ← base64Value p
      let y ← base64Value q
      if y &&& 0x0f = 0 then some [x <<< 2 ||| y >>> 4] else none
    else if s = 61 ∧ rest = [] then do
      let x ← base64Value p
      let y ← base64Value q
      let z ← base64Value r
      if z &&& 0x03 = 0 then some [x <<< 2 ||| y >>> 4, y <<< 4 ||| z >>> 2] else none
    else do
      let x ← base64Value p
      let y ← base64Value q
      let z ← base64Value r
      let w ← base64Value s
      let decoded ← base64Decode rest
      some ((x <<< 2 ||| y >>> 4) :: (y <<< 4 ||| z >>> 2) :: (z <<< 6 ||| w) :: decoded)
  | _ => none

theorem base64Value_digit : ∀ index : UInt8, index < 64 →
    base64Value (base64Digit index) = some index := by decide +kernel

theorem base64Digit_ne : ∀ index : UInt8, index < 64 → base64Digit index ≠ 61 := by decide +kernel

section
variable (a b c : UInt8)

/-- The digits of a group of three bytes. -/
theorem groupDigits_lt : a >>> 2 < 64 ∧ (a &&& 0x03) <<< 4 ||| b >>> 4 < 64 ∧
    (b &&& 0x0f) <<< 2 ||| c >>> 6 < 64 ∧ c &&& 0x3f < 64 := by
  have hhigh : ∀ x y : UInt8, x < 64 → y < 64 → x ||| y < 64 := by
    intro x y hx hy
    rw [UInt8.lt_iff_toNat_lt] at hx hy ⊢
    rw [UInt8.toNat_or]
    exact Nat.or_lt_two_pow (n := 6) hx hy
  have hshift : ∀ x : UInt8, x >>> 2 < 64 ∧ x >>> 4 < 64 ∧ x >>> 6 < 64 ∧ x &&& 0x3f < 64 ∧
      (x &&& 0x03) <<< 4 < 64 ∧ (x &&& 0x0f) <<< 2 < 64 := by decide +kernel
  obtain ⟨ha, -, -, -, ha', -⟩ := hshift a
  obtain ⟨-, hb, -, -, -, hb'⟩ := hshift b
  obtain ⟨-, -, hc, hc', -, -⟩ := hshift c
  exact ⟨ha, hhigh _ _ ha' hb, hhigh _ _ hb' hc, hc'⟩

theorem firstByte_eq : (a >>> 2) <<< 2 ||| ((a &&& 0x03) <<< 4 ||| b >>> 4) >>> 4 = a := by
  apply UInt8.toBitVec_inj.1
  simp only [UInt8.toBitVec_or, UInt8.toBitVec_shiftLeft, UInt8.toBitVec_shiftRight,
    UInt8.toBitVec_and]
  ext i hi
  interval_cases i <;> simp

theorem secondByte_eq : ((a &&& 0x03) <<< 4 ||| b >>> 4) <<< 4 |||
    ((b &&& 0x0f) <<< 2 ||| c >>> 6) >>> 2 = b := by
  apply UInt8.toBitVec_inj.1
  simp only [UInt8.toBitVec_or, UInt8.toBitVec_shiftLeft, UInt8.toBitVec_shiftRight,
    UInt8.toBitVec_and]
  ext i hi
  interval_cases i <;> simp

theorem thirdByte_eq : ((b &&& 0x0f) <<< 2 ||| c >>> 6) <<< 6 ||| (c &&& 0x3f) = c := by
  apply UInt8.toBitVec_inj.1
  simp only [UInt8.toBitVec_or, UInt8.toBitVec_shiftLeft, UInt8.toBitVec_shiftRight,
    UInt8.toBitVec_and]
  ext i hi
  interval_cases i <;> simp

end

/-- The bytes at the end are a group of three whose other bytes are zero. -/
theorem lastGroup (x : UInt8) : x ||| (0 : UInt8) >>> 4 = x ∧ x ||| (0 : UInt8) >>> 6 = x :=
  ⟨UInt8.or_zero, UInt8.or_zero⟩

/-- **Decoding** gives back what was encoded. -/
theorem base64Decode_encode : ∀ input : Str, base64Decode (base64Encode input) = some input
  | a :: b :: c :: rest => by
    obtain ⟨h₁, h₂, h₃, h₄⟩ := groupDigits_lt a b c
    have ih := base64Decode_encode rest
    rw [base64Encode, base64Decode, if_neg fun h => base64Digit_ne _ h₃ h.1,
      if_neg fun h => base64Digit_ne _ h₄ h.1]
    simp only [base64Value_digit _ h₁, base64Value_digit _ h₂, base64Value_digit _ h₃,
      base64Value_digit _ h₄, ih, Option.bind_eq_bind, Option.bind_some, firstByte_eq,
      secondByte_eq, thirdByte_eq]
  | [a, b] => by
    obtain ⟨h₁, h₂, h₃, -⟩ := groupDigits_lt a b 0
    have hlow : ∀ x : UInt8, (x &&& 0x0f) <<< 2 &&& 0x03 = 0 := by decide +kernel
    have hsecond := secondByte_eq a b 0
    rw [(lastGroup _).2] at h₃ hsecond
    rw [base64Encode, base64Decode, if_neg fun h => base64Digit_ne _ h₃ h.1, if_pos ⟨rfl, rfl⟩]
    simp only [base64Value_digit _ h₁, base64Value_digit _ h₂, base64Value_digit _ h₃,
      Option.bind_eq_bind, Option.bind_some, hlow, if_true, firstByte_eq, hsecond]
  | [a] => by
    obtain ⟨h₁, h₂, -, -⟩ := groupDigits_lt a 0 0
    have hlow : ∀ x : UInt8, (x &&& 0x03) <<< 4 &&& 0x0f = 0 := by decide +kernel
    have hfirst := firstByte_eq a 0
    rw [(lastGroup _).1] at h₂ hfirst
    rw [base64Encode, base64Decode, if_pos ⟨rfl, rfl, rfl⟩]
    simp only [base64Value_digit _ h₁, base64Value_digit _ h₂, Option.bind_eq_bind,
      Option.bind_some, hlow, if_true, hfirst]
  | [] => rfl

theorem base64Encode_injective : Function.Injective base64Encode := by
  intro x y h
  have hdecode := congrArg base64Decode h
  rw [base64Decode_encode, base64Decode_encode] at hdecode
  exact Option.some.inj hdecode

/-! ## The header that counts -/

/-- The value of a header line, where it has the name. -/
def lineValue (name line : Str) : Option Str :=
  if 58 ∈ trim line ∧ lowerAscii (trim ((trim line).takeWhile (· ≠ 58))) = name then
    some (trim (((trim line).dropWhile (· ≠ 58)).drop 1))
  else none

/-- The value of a header: of several lines with the name, the last one counts. -/
def headerValue (name block : Str) : Option Str :=
  (lines block).tail.reverse.findSome? (lineValue name)

section
variable {name line block startLine : Str} {ls : List Str} {headers headers' : List (Str × Str)}

theorem readHeaderLine_findField (h : readHeaderLine headers line = .ok headers') :
    findField headers' name = (lineValue name line).or (findField headers name) := by
  rw [readHeaderLine] at h
  by_cases hempty : trim line = []
  · rw [if_pos hempty, except_pure_ok] at h
    rw [lineValue, if_neg (by simp [hempty]), h, Option.none_or]
  · rw [if_neg hempty] at h
    obtain ⟨_, hcolon, h⟩ := except_bind_ok.1 h
    rw [throwIf_ok, not_not] at hcolon
    rw [← except_pure_ok.1 h, findField_insertOrAssign, lineValue]
    by_cases hname : lowerAscii (trim ((trim line).takeWhile (· ≠ 58))) = name
    · rw [if_pos hname, if_pos ⟨hcolon, hname⟩, Option.some_or]
    · rw [if_neg hname, if_neg fun hboth => hname hboth.2, Option.none_or]

theorem readHeaderLines_findField (h : ls.foldlM readHeaderLine headers = .ok headers') :
    findField headers' name = (ls.reverse.findSome? (lineValue name)).or (findField headers name) := by
  induction ls generalizing headers with
  | nil =>
    rw [List.foldlM_nil, except_pure_ok] at h
    rw [h, List.reverse_nil, List.findSome?_nil, Option.none_or]
  | cons line ls ih =>
    rw [List.foldlM_cons] at h
    obtain ⟨between, hline, hls⟩ := except_bind_ok.1 h
    rw [ih hls, readHeaderLine_findField hline, List.reverse_cons, List.findSome?_append,
      Option.or_assoc, List.findSome?_singleton]

/-- **The headers of a block** are those of its lines. -/
theorem readHeaders_findField (h : readHeaders block = .ok (startLine, headers)) :
    findField headers name = headerValue name block := by
  rw [readHeaders] at h
  obtain ⟨headers', hfold, h⟩ := except_bind_ok.1 h
  obtain ⟨-, rfl⟩ := Prod.mk.inj (except_pure_ok.1 h)
  rw [readHeaderLines_findField hfold, headerValue]
  exact Option.or_none

end

/-! ## The call of the handler -/

section
variable {D : Type} [Double D]

/-- `handle_client` calls the handler with the request. -/
def Calls (cookie : Str) (deliveries : List Delivery) (request : RpcRequest D) : Prop :=
  ∃ http deliveries' id, receiveHttp.run deliveries = .ok http deliveries' ∧
    (handlerRequest cookie http).run .null = .ok (.inr request) id

/-- What is sent back after the handler was called. -/
def handlerResponse (id : Json D) : Except RpcExn (Json D) → Str
  | .ok result => httpResponse 200 "OK" (rpcResponse result .null id)
  | .error e => errorResponse e id

variable {cookie host method : Str} {http : HttpMessage} {deliveries : List Delivery}
  {request : RpcRequest D} {params params' : List (Json D)} {id : Json D}
  {handler handler' : RpcRequest D → Except RpcExn (Json D)}

/-- After a call, the response is the handler's. -/
theorem Calls.response (h : Calls cookie deliveries request) :
    ∃ id, ∀ handler, handleClient cookie handler deliveries =
      handlerResponse id (handler request) := by
  obtain ⟨http, deliveries', id, hrun, hrequest⟩ := h
  refine ⟨id, fun handler => ?_⟩
  rw [handleClient, hrun]
  dsimp only
  rw [answer_eq, EStateM.run_bind, hrequest]
  cases hresult : handler request with
  | error e =>
    simp only [callHandler, hresult, EStateM.run, bind, EStateM.bind, liftExn]
    rfl
  | ok result =>
    simp only [callHandler, hresult, EStateM.run, bind, EStateM.bind, liftExn]
    rfl

/-- Without a call, the response does not depend on the handler. -/
theorem handleClient_of_not_calls
    (h : ∀ request : RpcRequest D, ¬ Calls cookie deliveries request) :
    handleClient cookie handler deliveries = handleClient cookie handler' deliveries := by
  rw [handleClient, handleClient]
  cases hrun : receiveHttp.run deliveries with
  | error e deliveries' => rfl
  | ok http deliveries' =>
    dsimp only
    rw [answer_eq, answer_eq, EStateM.run_bind, EStateM.run_bind]
    cases hrequest : (handlerRequest cookie http).run (.null : Json D) with
    | error e id => rfl
    | ok target id =>
      cases target with
      | inl response => rfl
      | inr request => exact absurd ⟨http, deliveries', id, hrun, hrequest⟩ (h request)

/-- Every path to the handler passes the check. -/
theorem handlerRequest_authorization
    (h : (handlerRequest cookie http).run (.null : Json D) = .ok (.inr request) id) :
    findField http.headers (str "authorization") = some (str "Basic " ++ base64Encode cookie) := by
  by_contra hauthorization
  rw [handlerRequest] at h
  by_cases hstart : str "POST " <+: http.startLine
  · simp only [hstart, not_true, if_false, ne_eq, hauthorization, not_false_eq_true, if_true] at h
    cases h
  · rw [if_pos hstart] at h
    cases h

/-- What is received, piece by piece. -/
theorem receiveHttp_ok {deliveries' : List Delivery}
    (h : receiveHttp.run deliveries = .ok http deliveries') :
    ∃ data headerEnd rest startLine, receiveHeaderBlock.run deliveries = .ok (data, headerEnd) rest ∧
      readHeaders (data.take headerEnd) = .ok (startLine, http.headers) := by
  rw [receiveHttp, run_bind_ok] at h
  obtain ⟨⟨data, headerEnd⟩, rest, hblock, h⟩ := h
  obtain ⟨⟨startLine, headers⟩, rest', hheaders, h⟩ := run_bind_ok.1 h
  obtain ⟨contentLength, rest'', -, h⟩ := run_bind_ok.1 h
  obtain ⟨body, deliveries'', -, h⟩ := run_bind_ok.1 h
  obtain ⟨rfl, -⟩ := EStateM.Result.ok.inj h
  exact ⟨data, headerEnd, rest, startLine, hblock, (lift_run_ok.1 hheaders).1⟩

/-- **The header block** of a stream that gets to the handler has the expected value. -/
theorem Calls.headerValue (h : Calls cookie deliveries request) {data : Str} {headerEnd : ℕ}
    {rest : List Delivery} (hblock : receiveHeaderBlock.run deliveries = .ok (data, headerEnd) rest) :
    headerValue (str "authorization") (data.take headerEnd) =
      some (str "Basic " ++ base64Encode cookie) := by
  obtain ⟨http, deliveries', id, hrun, hrequest⟩ := h
  obtain ⟨data', headerEnd', rest', startLine, hblock', hheaders⟩ := receiveHttp_ok hrun
  rw [hblock] at hblock'
  obtain ⟨hpair, -⟩ := EStateM.Result.ok.inj hblock'
  obtain ⟨rfl, rfl⟩ := Prod.mk.inj hpair
  rw [← readHeaders_findField hheaders]
  exact handlerRequest_authorization hrequest

/-- The authorization of another cookie is not what the server expects. -/
theorem trim_authorization_eq {c : Str} : trim (str "Basic " ++ base64Encode c) =
    str "Basic " ++ base64Encode cookie ↔ c = cookie ∧ cookie ≠ [] := by
  constructor
  · intro h
    have hne : c ≠ [] := by
      rintro rfl
      have hempty : trim (str "Basic " ++ base64Encode []) = str "Basic" := by decide
      have hlength := congrArg List.length (hempty.symm.trans h)
      have hstr : (str "Basic").length = 5 ∧ (str "Basic ").length = 6 := by decide
      rw [List.length_append, hstr.1, hstr.2] at hlength
      omega
    rw [trim_authorization.2 hne] at h
    obtain rfl := base64Encode_injective (List.append_cancel_left h)
    exact ⟨rfl, hne⟩
  · rintro ⟨rfl, hne⟩
    exact trim_authorization.2 hne

/-- **A request of the client** gets to the handler exactly if it has the server's cookie, which is
    not empty, and its header block is received. -/
theorem calls_rpcRequest {c : Str} (hcr : 13 ∉ host) (hlf : 10 ∉ host)
    (hbody : (rpcRequestBody method params).length ≤ maxRpcRequest)
    (hparams : List.Forall₂ (ReadAs false) params params')
    (hrequest : Delivers deliveries (rpcRequest host c (rpcRequestBody method params))) :
    Calls cookie deliveries request ↔ request = ⟨method, params', requestId⟩ ∧ c = cookie ∧
      cookie ≠ [] ∧ Fits (headerSize (str "POST / HTTP/1.1")
        (requestFields host c (rpcRequestBody method params))) deliveries 0 := by
  obtain ⟨hok, herror⟩ := receiveHttp_run
    (httpOk_request hcr hlf c (rpcRequestBody method params)) hrequest
  by_cases hfits : Fits (headerSize (str "POST / HTTP/1.1")
      (requestFields host c (rpcRequestBody method params))) deliveries 0
  swap
  · obtain ⟨e, deliveries', hrun⟩ := herror fun hboth => hfits hboth.1
    refine ⟨?_, fun h => absurd h.2.2.2 hfits⟩
    rintro ⟨http, deliveries'', id, hrun', -⟩
    rw [hrun] at hrun'
    cases hrun'
  obtain ⟨deliveries', hrun⟩ := hok ⟨hfits, hbody⟩
  have hstart : str "POST " <+: trim (str "POST / HTTP/1.1") := by decide
  have hfind : findField (headersOf (requestFields host c (rpcRequestBody method params)) [])
      (str "authorization") = some (trim (str "Basic " ++ base64Encode c)) := findField_authorization
  have hrequest : c = cookie ∧ cookie ≠ [] → (handlerRequest cookie
      ⟨trim (str "POST / HTTP/1.1"), headersOf (requestFields host c (rpcRequestBody method params)) [],
        rpcRequestBody method params⟩).run .null = .ok (.inr ⟨method, params', requestId⟩) requestId :=
    fun hboth => handlerRequest_run hstart rfl
      (hfind.trans (congrArg some (trim_authorization_eq.2 hboth))) hparams
  constructor
  · rintro ⟨http, deliveries'', id, hrun', hcall⟩
    rw [hrun] at hrun'
    obtain ⟨rfl, -⟩ := EStateM.Result.ok.inj hrun'
    -- what the server finds is trimmed, what it expects is not
    have hboth : c = cookie ∧ cookie ≠ [] := trim_authorization_eq.1
      (Option.some.inj (hfind.symm.trans (handlerRequest_authorization hcall)))
    rw [hrequest hboth] at hcall
    obtain ⟨hsome, -⟩ := EStateM.Result.ok.inj hcall
    exact ⟨(Sum.inr.inj hsome).symm, hboth.1, hboth.2, hfits⟩
  · rintro ⟨rfl, heq, hcookie, -⟩
    exact ⟨_, deliveries', requestId, hrun, hrequest ⟨heq, hcookie⟩⟩

end

/-! ## Authentication -/

/-- **The handler is called** for a request of the client exactly if the cookies are the same, not
    empty, and the header block is received within the limit; and for no stream with another
    authorization.  Cookies are told apart by their texts. -/
theorem rpc_authenticates {D : Type} [Double D] (cookie : Str) :
    (∀ (host c method : Str) (params params' : List (Json D)) (deliveries : List Delivery),
      13 ∉ host → 10 ∉ host → (rpcRequestBody method params).length ≤ maxRpcRequest →
      List.Forall₂ (ReadAs false) params params' →
      Delivers deliveries (rpcRequest host c (rpcRequestBody method params)) →
      ((∃ request : RpcRequest D, Calls cookie deliveries request) ↔ c = cookie ∧ cookie ≠ [] ∧
        Fits (headerSize (str "POST / HTTP/1.1")
          (requestFields host c (rpcRequestBody method params))) deliveries 0)) ∧
    (∀ (deliveries rest : List Delivery) (data : Str) (headerEnd : ℕ),
      receiveHeaderBlock.run deliveries = .ok (data, headerEnd) rest →
      headerValue (str "authorization") (data.take headerEnd) ≠
        some (str "Basic " ++ base64Encode cookie) →
      ∀ request : RpcRequest D, ¬ Calls cookie deliveries request) ∧
    (∀ input, base64Decode (base64Encode input) = some input) ∧
    Function.Injective base64Encode := by
  refine ⟨?_, ?_, base64Decode_encode, base64Encode_injective⟩
  · intro host c method params params' deliveries hcr hlf hbody hparams hrequest
    constructor
    · rintro ⟨request, hcall⟩
      exact ((calls_rpcRequest hcr hlf hbody hparams hrequest).1 hcall).2
    · intro h
      exact ⟨_, (calls_rpcRequest hcr hlf hbody hparams hrequest).2 ⟨rfl, h⟩⟩
  · intro deliveries rest data headerEnd hblock hvalue request hcall
    exact hvalue (hcall.headerValue hblock)

/-- The number of blocks is asked for with the server's cookie. -/
theorem rpc_authenticates_count :
    ∃ request : RpcRequest Empty, Calls sampleCookie sampleRequest request :=
  ((rpc_authenticates sampleCookie).1 sampleHost sampleCookie sampleMethod [] [] sampleRequest
    sampleFacts.cr sampleFacts.lf sampleFacts.body .nil sampleRequest_delivers).2
    ⟨rfl, sampleFacts.cookie, sampleRequest_delivers.fits sampleFacts.size⟩

/-- The empty cookie is not the server's, although the server's is empty. -/
theorem rpc_empty_cookie :
    Delivers (byteByByte (rpcRequest sampleHost [] (rpcRequestBody sampleMethod ([] : List (Json Empty)))))
      (rpcRequest sampleHost [] (rpcRequestBody sampleMethod ([] : List (Json Empty)))) ∧
    (rpcRequestBody sampleMethod ([] : List (Json Empty))).length ≤ maxRpcRequest ∧
    13 ∉ sampleHost ∧ 10 ∉ sampleHost ∧
    ¬ ∃ request : RpcRequest Empty, Calls [] (byteByByte (rpcRequest sampleHost []
      (rpcRequestBody sampleMethod ([] : List (Json Empty))))) request := by
  refine ⟨byteByByte_delivers _, sampleFacts.body, sampleFacts.cr, sampleFacts.lf, ?_⟩
  rintro ⟨request, hcall⟩
  exact ((calls_rpcRequest sampleFacts.cr sampleFacts.lf sampleFacts.body .nil
    (byteByByte_delivers _)).1 hcall).2.2.1 rfl

end BinaryCoin
