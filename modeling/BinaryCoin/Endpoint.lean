/-
  BinaryCoin — net.cpp: `parse_peer_endpoint`, which takes more than it should.

  The port is what `std::stoul` makes of the text behind the colon: it skips
  white space, takes a sign, stops at the first character that is no digit and
  wraps negative numbers around.  Where `parse_port` of cli_main.cpp and
  `parse_u64` of main.cpp ask how far it has read, `parse_peer_endpoint` does
  not; and a bracketed address may be empty, where a host may not.
-/
import BinaryCoin.PeerStore
import BinaryCoin.Stoul

namespace BinaryCoin

open Text

/-! ## The code -/

/-- `value == 0 || value > std::numeric_limits<std::uint16_t>::max()` -/
def portOutside (value : ℕ) : Bool := value = 0 ∨ value > 65535

def parsePeerEndpoint (text : Str) : Except Exn PeerEndpoint := do
  throwIf (text = []) (invalidArgument "Peer endpoint cannot be empty")
  if text.head? = some 91 then
    let parts ← orThrow (cut 93 text) (invalidArgument "Malformed bracketed IPv6 endpoint")
    let host := parts.1.drop 1
    if parts.2 = [] then return ⟨host, 26001⟩
    throwIf (parts.2.head? ≠ some 58) (invalidArgument "Malformed bracketed IPv6 endpoint")
    let value := (← stoul (parts.2.drop 1)).1
    throwIf (portOutside value) (invalidArgument "Peer port outside valid range")
    return ⟨host, UInt16.ofNat value⟩
  match cut 58 text with
  | none => return ⟨text, 26001⟩
  | some parts =>
    -- the first colon is not the last
    throwIf (58 ∈ parts.2) (invalidArgument "IPv6 endpoints must use [address]:port syntax")
    let value := (← stoul parts.2).1
    throwIf (parts.1 = [] ∨ portOutside value) (invalidArgument "Peer endpoint is invalid")
    return ⟨parts.1, UInt16.ofNat value⟩

/-! ## The syntax of endpoints -/

/-- What stands behind a host. -/
def portSuffix : Option Str → Str
  | none => []
  | some port => 58 :: port

/-- The two ways to write a host, with or without the text of a port. -/
inductive EndpointForm : Str → Bool → Str → Option Str → Prop
  | host {host port} : 58 ∉ host → host.head? ≠ some 91 → (∀ p, port = some p → 58 ∉ p) →
      EndpointForm (host ++ portSuffix port) false host port
  | address {host port} : 93 ∉ host → EndpointForm (91 :: host ++ 93 :: portSuffix port) true host port

/-- The port that is given, in a text that reads as a number, or the default. -/
inductive GivenPort (Reads : Str → ℕ → Prop) : Option Str → UInt16 → Prop
  | absent : GivenPort Reads none 26001
  | given {text n} : Reads text n → 0 < n → n ≤ 65535 → GivenPort Reads (some text) (UInt16.ofNat n)

/-- Digits, and the number that they spell. -/
structure IsNumber (text : Str) (n : ℕ) : Prop where
  ne_nil : text ≠ []
  digits : ∀ c ∈ text, IsDigit c
  value : n = decimalValue text

/-- Digits behind white space and a sign and before anything else, and the number that they spell;
    with a minus it wraps around. -/
def LooseNumber (text : Str) (n : ℕ) : Prop :=
  ∃ space sign digits rest, Scanned text space sign digits rest ∧ decimalValue digits < 2 ^ 64 ∧
    n = signedValue sign (decimalValue digits)

/-- The endpoints. -/
def EndpointSyntax (text : Str) (endpoint : PeerEndpoint) : Prop :=
  ∃ bracketed port, EndpointForm text bracketed endpoint.host port ∧ endpoint.host ≠ [] ∧
    GivenPort IsNumber port endpoint.port

/-- A text that is no endpoint, but is taken for one: for its empty address, or for a port that is a
    number only loosely. -/
def Misread (text : Str) : Prop :=
  ∃ bracketed host port value, EndpointForm text bracketed host port ∧
    (bracketed = false → host ≠ []) ∧ GivenPort LooseNumber port value ∧
    (host = [] ∨ ∃ p, port = some p ∧ ∃ c ∈ p, ¬ IsDigit c)

variable {text host : Str} {port : Option Str} {bracketed : Bool} {endpoint : PeerEndpoint}

/-! ## Forms are unique -/

theorem portSuffix_inj {port' : Option Str} (h : portSuffix port = portSuffix port') :
    port = port' := by
  cases port <;> cases port' <;> simp_all [portSuffix]

theorem EndpointForm.head (h : EndpointForm text bracketed host port) :
    bracketed = true ↔ text.head? = some 91 := by
  cases h with
  | host _ hhead _ =>
    cases host with
    | nil => cases port <;> simp [portSuffix]
    | cons c host => simpa using hhead
  | address _ => simp

theorem EndpointForm.text_eq (h : EndpointForm text false host port) :
    text = host ++ portSuffix port := by
  cases h
  rfl

theorem EndpointForm.cut_bracket (h : EndpointForm text true host port) :
    cut 93 text = some (91 :: host, portSuffix port) := by
  cases h with
  | address hhost => exact cut_append (by simpa using hhost)

theorem EndpointForm.cut_colon (h : EndpointForm text false host port) :
    cut 58 text = port.map fun p => (host, p) := by
  cases h with
  | host hhost _ _ =>
    cases port with
    | none => exact cut_eq_none.2 (by simpa [portSuffix] using hhost)
    | some p => exact cut_append hhost

theorem EndpointForm.port_colon (h : EndpointForm text false host port) (p : Str)
    (hp : port = some p) : 58 ∉ p := by
  cases h with
  | host _ _ hport => exact hport p hp

theorem EndpointForm.unique {bracketed' : Bool} {host' : Str} {port' : Option Str}
    (h : EndpointForm text bracketed host port) (h' : EndpointForm text bracketed' host' port') :
    host = host' ∧ port = port' := by
  have hsame : bracketed = bracketed' := by
    rw [Bool.eq_iff_iff, h.head, h'.head]
  subst hsame
  cases bracketed with
  | true =>
    have hparts := h.cut_bracket.symm.trans h'.cut_bracket
    simp only [Option.some.injEq, Prod.mk.injEq, List.cons.injEq, true_and] at hparts
    exact ⟨hparts.1, portSuffix_inj hparts.2⟩
  | false =>
    have hparts := h.cut_colon.symm.trans h'.cut_colon
    cases port with
    | none =>
      cases port' with
      | none => exact ⟨List.append_cancel_right (h.text_eq.symm.trans h'.text_eq), rfl⟩
      | some p' => cases hparts
    | some p =>
      cases port' with
      | none => cases hparts
      | some p' =>
        obtain ⟨rfl, rfl⟩ := Prod.mk.inj (Option.some.inj hparts)
        exact ⟨rfl, rfl⟩

/-! ## What is accepted -/

/-- `stoul` reads the loose numbers. -/
theorem stoul_ok {n : ℕ} : (∃ used, stoul text = .ok (n, used)) ↔ LooseNumber text n := by
  constructor
  · rintro ⟨used, h⟩
    obtain ⟨space, sign, digits, rest, hscanned⟩ := scanned_of_stoul h
    rw [hscanned.stoul] at h
    split_ifs at h with hbound
    obtain ⟨rfl, -⟩ := Prod.mk.inj (Except.ok.inj h)
    exact ⟨space, sign, digits, rest, hscanned, Nat.not_le.1 hbound, rfl⟩
  · rintro ⟨space, sign, digits, rest, hscanned, hbound, rfl⟩
    rw [hscanned.stoul, if_neg (Nat.not_le.2 hbound)]
    exact ⟨_, rfl⟩

/-- A number is read as it is. -/
theorem IsNumber.loose {n : ℕ} (h : IsNumber text n) (hn : n < 2 ^ 64) : LooseNumber text n := by
  obtain ⟨hne, hdigits, rfl⟩ := h
  refine ⟨[], [], text, [], ⟨by simp, by simp, .inl rfl, hne, ?_, rfl⟩, hn, ?_⟩
  · intro c hc
    exact isDigit_iff.2 (hdigits c hc)
  · rw [signedValue, if_neg (by simp)]

/-- A loose number of digits only is a number. -/
theorem LooseNumber.isNumber {n : ℕ} (h : LooseNumber text n) (hdigits : ∀ c ∈ text, IsDigit c) :
    IsNumber text n := by
  obtain ⟨space, sign, digits, rest, hscanned, -, rfl⟩ := h
  have hall : ∀ c ∈ text, isDigit c = true := fun c hc => isDigit_iff.2 (hdigits c hc)
  rw [hscanned.text_eq] at hall
  have hspace : space = [] := by
    refine List.eq_nil_iff_forall_not_mem.2 fun c hc => ?_
    have hdigit := (digit_facts c (hall c (List.mem_append_left _ hc))).1
    rw [hscanned.space_all c hc] at hdigit
    cases hdigit
  have hsign : sign = [] := by
    rcases hscanned.sign_eq with rfl | rfl | rfl
    · rfl
    · exact absurd rfl (digit_facts 43 (hall 43 (by simp))).2.1
    · exact absurd rfl (digit_facts 45 (hall 45 (by simp))).2.2
  have hrest : rest = [] := by
    cases rest with
    | nil => rfl
    | cons c rest =>
      have hhead := hscanned.rest_head
      have hc := hall c (by simp)
      simp [hc] at hhead
  have htext := hscanned.text_eq
  rw [hspace, hsign, hrest, List.nil_append, List.nil_append, List.append_nil] at htext
  rw [htext, hsign, signedValue, if_neg (by simp)]
  exact ⟨hscanned.digits_ne, fun c hc => isDigit_iff.1 (hscanned.digits_all c hc), rfl⟩

theorem portOutside_eq_false {n : ℕ} : ¬ portOutside n = true ↔ 0 < n ∧ n ≤ 65535 := by
  simp only [portOutside, decide_eq_true_eq, not_or]
  omega

theorem givenPort_none {Reads : Str → ℕ → Prop} {value : UInt16} :
    GivenPort Reads none value ↔ value = 26001 := by
  constructor
  · rintro ⟨⟩
    rfl
  · rintro rfl
    exact .absent

theorem givenPort_some {Reads : Str → ℕ → Prop} {value : UInt16} : GivenPort Reads (some text) value ↔
    ∃ n, Reads text n ∧ (0 < n ∧ n ≤ 65535) ∧ value = UInt16.ofNat n := by
  constructor
  · rintro (_ | ⟨hreads, hpos, hle⟩)
    exact ⟨_, hreads, ⟨hpos, hle⟩, rfl⟩
  · rintro ⟨n, hreads, ⟨hpos, hle⟩, rfl⟩
    exact .given hreads hpos hle

theorem endpoint_eq_iff {value : UInt16} :
    ⟨host, value⟩ = endpoint ↔ endpoint.host = host ∧ endpoint.port = value := by
  constructor
  · rintro rfl
    exact ⟨rfl, rfl⟩
  · rintro ⟨rfl, rfl⟩
    rfl

/-- The end of the function, which reads the port. -/
theorem readPort_ok {refuse : Prop} [Decidable refuse] {e : Exn} :
    (do
      let value := (← stoul text).1
      throwIf (refuse ∨ portOutside value) e
      return ⟨host, UInt16.ofNat value⟩ : Except Exn PeerEndpoint) = .ok endpoint ↔
    endpoint.host = host ∧ ¬ refuse ∧ GivenPort LooseNumber (some text) endpoint.port := by
  simp only [except_bind_ok, throwIf_ok, exists_const, except_pure_ok, not_or, portOutside_eq_false,
    endpoint_eq_iff, givenPort_some]
  constructor
  · rintro ⟨⟨n, used⟩, hread, ⟨hrefuse, hrange⟩, hhost, hport⟩
    exact ⟨hhost, hrefuse, n, stoul_ok.1 ⟨used, hread⟩, hrange, hport⟩
  · rintro ⟨hhost, hrefuse, n, hread, hrange, hport⟩
    obtain ⟨used, hread⟩ := stoul_ok.2 hread
    exact ⟨⟨n, used⟩, hread, ⟨hrefuse, hrange⟩, hhost, hport⟩

/-- What is accepted of a bracketed address. -/
theorem parsePeerEndpoint_bracketed (h : EndpointForm text true host port) :
    parsePeerEndpoint text = .ok endpoint ↔ endpoint.host = host ∧
      GivenPort LooseNumber port endpoint.port := by
  have hhead := h.head.1 rfl
  have hne : text ≠ [] := by
    rintro rfl
    cases hhead
  rw [parsePeerEndpoint, throwIf, if_neg hne, if_pos hhead, h.cut_bracket]
  cases port with
  | none =>
    rw [givenPort_none]
    exact except_pure_ok.trans endpoint_eq_iff
  | some p =>
    have hread := @readPort_ok p host endpoint False _ (invalidArgument "Peer port outside valid range")
    simp only [false_or, not_false_eq_true, true_and] at hread
    simpa only [portSuffix, pure_bind, orThrow, except_ok_bind, reduceCtorEq, if_false, throwIf,
      List.head?_cons, ne_eq, not_true_eq_false, List.drop_succ_cons, List.drop_zero] using hread

/-- What is accepted of a host. -/
theorem parsePeerEndpoint_host (h : EndpointForm text false host port) :
    parsePeerEndpoint text = .ok endpoint ↔ endpoint.host = host ∧ host ≠ [] ∧
      GivenPort LooseNumber port endpoint.port := by
  have hhead : ¬ text.head? = some 91 := by
    intro hhead
    cases h.head.2 hhead
  by_cases hempty : text = []
  · have htext := h.text_eq
    have hhost : host = [] := by
      rw [hempty] at htext
      exact (List.append_eq_nil_iff.1 htext.symm).1
    rw [parsePeerEndpoint, throwIf, if_pos hempty]
    simp [hhost, throw, throwThe, MonadExceptOf.throw, bind, Except.bind]
  · rw [parsePeerEndpoint, throwIf, if_neg hempty, if_neg hhead, pure_bind, h.cut_colon]
    cases port with
    | none =>
      have htext : text = host := by simpa [portSuffix] using h.text_eq
      rw [givenPort_none, ← htext]
      simp only [ne_eq, hempty, not_false_eq_true, true_and]
      exact except_pure_ok.trans endpoint_eq_iff
    | some p =>
      have hcolon := h.port_colon p rfl
      simp only [Option.map_some]
      rw [throwIf, if_neg hcolon, pure_bind]
      exact readPort_ok

/-- What is accepted has the form of an endpoint. -/
theorem form_of_parse (h : parsePeerEndpoint text = .ok endpoint) :
    ∃ bracketed host port, EndpointForm text bracketed host port := by
  by_cases hhead : text.head? = some 91
  · obtain ⟨text, rfl⟩ : ∃ rest, text = 91 :: rest := by
      cases text with
      | nil => cases hhead
      | cons c rest => exact ⟨rest, by rw [Option.some.inj hhead]⟩
    rw [parsePeerEndpoint, throwIf, if_neg (by simp), if_pos hhead, pure_bind] at h
    obtain ⟨⟨before, behind⟩, hparts, hend⟩ := except_bind_ok.1 h
    obtain ⟨hnot, htext⟩ := cut_eq_some.1 (orThrow_ok.1 hparts)
    cases before with
    | nil =>
      cases htext
    | cons c host =>
      obtain ⟨rfl, rfl⟩ := List.cons.inj htext
      have hhost : 93 ∉ host := fun hmem => hnot (List.mem_cons_of_mem _ hmem)
      cases behind with
      | nil =>
        have hform : EndpointForm (91 :: host ++ 93 :: portSuffix none) true host none :=
          .address hhost
        exact ⟨_, _, _, hform⟩
      | cons c port =>
        rw [if_neg (by simp)] at hend
        obtain ⟨_, hcheck, -⟩ := except_bind_ok.1 hend
        obtain rfl : c = 58 := by simpa using throwIf_ok.1 hcheck
        have hform : EndpointForm (91 :: host ++ 93 :: portSuffix (some port)) true host (some port) :=
          .address hhost
        exact ⟨_, _, _, hform⟩
  · cases hcut : cut 58 text with
    | none =>
      have hform : EndpointForm (text ++ portSuffix none) false text none :=
        .host (cut_eq_none.1 hcut) hhead (by simp)
      rw [portSuffix, List.append_nil] at hform
      exact ⟨_, _, _, hform⟩
    | some parts =>
      obtain ⟨host, port⟩ := parts
      obtain ⟨hhost, rfl⟩ := cut_eq_some.1 hcut
      have hne : host ++ 58 :: port ≠ [] := by simp
      rw [parsePeerEndpoint, throwIf, if_neg hne, if_neg hhead, pure_bind, hcut] at h
      obtain ⟨_, hcolon, -⟩ := except_bind_ok.1 h
      have hhost' : host.head? ≠ some 91 := by
        intro hbracket
        cases host with
        | nil => cases hbracket
        | cons c host => exact hhead hbracket
      have hform : EndpointForm (host ++ portSuffix (some port)) false host (some port) :=
        .host hhost hhost' fun p hp => by
          rw [← Option.some.inj hp]
          exact throwIf_ok.1 hcolon
      exact ⟨_, _, _, hform⟩

/-- **Exactly the endpoints are accepted**, but for the texts that are misread. -/
theorem parsePeerEndpoint_ok : parsePeerEndpoint text = .ok endpoint ↔ ∃ bracketed port,
    EndpointForm text bracketed endpoint.host port ∧ (bracketed = false → endpoint.host ≠ []) ∧
      GivenPort LooseNumber port endpoint.port := by
  constructor
  · intro h
    obtain ⟨bracketed, host, port, hform⟩ := form_of_parse h
    cases bracketed with
    | true =>
      obtain ⟨rfl, hport⟩ := (parsePeerEndpoint_bracketed hform).1 h
      exact ⟨true, port, hform, (fun h => by cases h), hport⟩
    | false =>
      obtain ⟨rfl, hne, hport⟩ := (parsePeerEndpoint_host hform).1 h
      exact ⟨false, port, hform, fun _ => hne, hport⟩
  · rintro ⟨bracketed, port, hform, hne, hport⟩
    cases bracketed with
    | true => exact (parsePeerEndpoint_bracketed hform).2 ⟨rfl, hport⟩
    | false => exact (parsePeerEndpoint_host hform).2 ⟨rfl, hne rfl, hport⟩

/-- The endpoints are accepted. -/
theorem EndpointSyntax.parse (h : EndpointSyntax text endpoint) :
    parsePeerEndpoint text = .ok endpoint := by
  obtain ⟨bracketed, port, hform, hne, hport⟩ := h
  refine parsePeerEndpoint_ok.2 ⟨bracketed, port, hform, fun _ => hne, ?_⟩
  cases port with
  | none => exact givenPort_none.2 (givenPort_none.1 hport)
  | some p =>
    obtain ⟨n, hnumber, hrange, hvalue⟩ := givenPort_some.1 hport
    exact givenPort_some.2 ⟨n, hnumber.loose (by omega), hrange, hvalue⟩

/-- **When `parse_peer_endpoint` accepts exactly its syntax**: on the texts that it does not misread. -/
theorem parse_endpoint_iff (text : Str) :
    (∀ endpoint, parsePeerEndpoint text = .ok endpoint ↔ EndpointSyntax text endpoint) ↔
      ¬ Misread text := by
  constructor
  · rintro h ⟨bracketed, host, port, value, hform, hne, hport, hwrong⟩
    obtain ⟨bracketed', port', hform', hne', hport'⟩ :=
      (h ⟨host, value⟩).1 (parsePeerEndpoint_ok.2 ⟨bracketed, port, hform, hne, hport⟩)
    obtain ⟨-, rfl⟩ := hform.unique hform'
    rcases hwrong with hempty | ⟨p, rfl, c, hc, hdigit⟩
    · exact hne' hempty
    · obtain ⟨n, hnumber, -⟩ := givenPort_some.1 hport'
      exact hdigit (hnumber.digits c hc)
  · intro h endpoint
    constructor
    · intro hparse
      obtain ⟨bracketed, port, hform, hne, hport⟩ := parsePeerEndpoint_ok.1 hparse
      have hhost : endpoint.host ≠ [] := by
        intro hempty
        exact h ⟨bracketed, _, port, _, hform, hne, hport, .inl hempty⟩
      refine ⟨bracketed, port, hform, hhost, ?_⟩
      cases port with
      | none => exact givenPort_none.2 (givenPort_none.1 hport)
      | some p =>
        obtain ⟨n, hloose, hrange, hvalue⟩ := givenPort_some.1 hport
        have hdigits : ∀ c ∈ p, IsDigit c := by
          intro c hc
          by_contra hdigit
          exact h ⟨bracketed, _, some p, _, hform, hne, hport, .inr ⟨p, rfl, c, hc, hdigit⟩⟩
        exact givenPort_some.2 ⟨n, hloose.isNumber hdigits, hrange, hvalue⟩
    · exact EndpointSyntax.parse

/-- A port with letters behind it is accepted. -/
theorem parse_endpoint_trailing : ¬ ∀ text endpoint,
    parsePeerEndpoint text = .ok endpoint ↔ EndpointSyntax text endpoint := by
  intro h
  have hparse : parsePeerEndpoint (str "127.0.0.1:26001x") = .ok ⟨str "127.0.0.1", 26001⟩ := by
    decide +kernel
  obtain ⟨bracketed, port, hform, -, hport⟩ := (h _ _).1 hparse
  have hform' : EndpointForm (str "127.0.0.1" ++ portSuffix (some (str "26001x"))) false
      (str "127.0.0.1") (some (str "26001x")) := by
    refine .host (by decide) (by decide) fun p hp => ?_
    rw [← Option.some.inj hp]
    decide
  obtain ⟨-, rfl⟩ := hform.unique hform'
  obtain ⟨n, hnumber, -⟩ := givenPort_some.1 hport
  exact absurd (hnumber.digits 120 (by decide)) (by unfold IsDigit; decide)

end BinaryCoin
