/-
  BinaryCoin — peer_store.cpp: the addresses of peers and their file.

  All operations but `mark_success` check an endpoint before they store it.
  What keeps the file readable is `Good`; what a reload gives back is the list
  that was saved (`load_text`).
-/
import BinaryCoin.FromChars
import BinaryCoin.Mempool
import BinaryCoin.Lib.Runs

namespace BinaryCoin

open Cursor Text Runs

structure PeerEndpoint where
  host : Str
  port : UInt16
  deriving DecidableEq

structure PeerRecord where
  endpoint : PeerEndpoint
  services : UInt64
  lastSeen : Int64
  lastSuccess : Int64
  failures : UInt32
  manual : Bool
  deriving DecidableEq

/-- The object and the file `peers.dat`, where there is one. -/
structure PeerStore where
  records : List PeerRecord
  file : Option Str

abbrev PeerM := EStateM Exn PeerStore

def peersMagic : Str := str "BINARYCOIN_PEERS_V1"

/-- The separator of the fields of a record. -/
def tab : UInt8 := 9

/-- `valid_host` -/
def validHost (host : Str) : Bool :=
  host ≠ [] ∧ host.length ≤ 255 ∧ tab ∉ host ∧ newline ∉ host ∧ 13 ∉ host

/-- What `find_if` finds, changed; nothing where it finds none. -/
def modifyFirst {α : Type} (found : α → Bool) (change : α → α) : List α → Option (List α)
  | [] => none
  | r :: rs => if found r then some (change r :: rs) else (modifyFirst found change rs).map (r :: ·)

theorem toInt_max (a b : Int64) : (max a b).toInt = max a.toInt b.toInt := by
  change (if a ≤ b then b else a).toInt = max a.toInt b.toInt
  split_ifs with h
  · exact (max_eq_right (Int64.le_iff_toInt_le.1 h)).symm
  · have hlt := Int64.lt_iff_toInt_lt.1 (Int64.not_le.1 h)
    exact (max_eq_left hlt.le).symm

namespace PeerRecord

/-- The merge of `add_or_update`. -/
def merge (stored incoming : PeerRecord) : PeerRecord where
  endpoint := stored.endpoint
  services := stored.services ||| incoming.services
  lastSeen := max stored.lastSeen incoming.lastSeen
  lastSuccess := max stored.lastSuccess incoming.lastSuccess
  failures := min stored.failures incoming.failures
  manual := stored.manual || incoming.manual

/-- What `mark_success` makes of a record. -/
def success (now : Int64) (services : UInt64) (stored : PeerRecord) : PeerRecord :=
  { stored with
    services := stored.services ||| services, lastSeen := now, lastSuccess := now, failures := 0 }

/-- What `mark_failure` makes of it. -/
def failure (stored : PeerRecord) : PeerRecord :=
  { stored with failures := if stored.failures < 1000000 then stored.failures + 1 else stored.failures }

/-- A line of the file. -/
def line (record : PeerRecord) : Str :=
  [tab].intercalate [record.endpoint.host, decimal record.endpoint.port.toNat,
    decimal record.services.toNat, toText record.lastSeen.toInt, toText record.lastSuccess.toInt,
    decimal record.failures.toNat, if record.manual then str "1" else str "0"]

end PeerRecord

namespace PeerStore

def setRecords (records : List PeerRecord) : PeerM Unit := modify fun s => { s with records := records }

def addIfMissing (incoming : PeerRecord) : PeerM Bool := do
  if ¬ validHost incoming.endpoint.host ∨ incoming.endpoint.port = 0 then return false
  let records := (← get).records
  if records.any (·.endpoint = incoming.endpoint) then return false
  setRecords (records ++ [incoming])
  return true

def addOrUpdate (incoming : PeerRecord) : PeerM Unit := do
  if ¬ validHost incoming.endpoint.host ∨ incoming.endpoint.port = 0 then return ()
  let records := (← get).records
  match modifyFirst (·.endpoint = incoming.endpoint) (·.merge incoming) records with
  | none => setRecords (records ++ [incoming])
  | some updated => setRecords updated

/-- The text of the file. -/
def text (records : List PeerRecord) : Str := unlines (peersMagic :: records.map PeerRecord.line)

/-- The file is replaced at once, after all of it has been written. -/
def save : PeerM Unit := modify fun s => { s with file := some (text s.records) }

/-- The body of the loop of `load`, on a line that is not empty. -/
def loadLine (line : Str) : PeerM Unit := do
  match fields line tab with
  | [host, port, services, lastSeen, lastSuccess, failures, manual] =>
    let port ← parseNumberIn "peers.dat" "port" ((unsigned 10 (2 ^ 16) port).map UInt16.ofNat)
    let services ← parseNumberIn "peers.dat" "services" ((unsigned 10 (2 ^ 64) services).map UInt64.ofNat)
    let lastSeen ← parseNumberIn "peers.dat" "last_seen" ((signed (2 ^ 63) lastSeen).map Int64.ofInt)
    let lastSuccess ← parseNumberIn "peers.dat" "last_success"
      ((signed (2 ^ 63) lastSuccess).map Int64.ofInt)
    let failures ← parseNumberIn "peers.dat" "failures" ((unsigned 10 (2 ^ 32) failures).map UInt32.ofNat)
    throwIf (¬ validHost host ∨ port = 0) (runtimeError "Invalid peers.dat endpoint")
    addOrUpdate ⟨⟨host, port⟩, services, lastSeen, lastSuccess, failures, manual = str "1"⟩
  | _ => throw (runtimeError "Malformed peers.dat record")

def load : PeerM Unit := do
  setRecords []
  match (← get).file with
  | none => return ()
  | some text =>
    match lines text with
    | [] => throw (runtimeError "Invalid peers.dat header")
    | magic :: records =>
      throwIf (magic ≠ peersMagic) (runtimeError "Invalid peers.dat header")
      forM (records.filter (· ≠ [])) loadLine

/-- `mark_success` at the clock reading `now`. -/
def markSuccess (now : Int64) (endpoint : PeerEndpoint) (services : UInt64) : PeerM Unit := do
  let records := (← get).records
  match modifyFirst (·.endpoint = endpoint) (·.success now services) records with
  | none => setRecords (records ++ [⟨endpoint, services, now, now, 0, false⟩])
  | some updated => setRecords updated
  save

def markFailure (endpoint : PeerEndpoint) : PeerM Unit := do
  match modifyFirst (·.endpoint = endpoint) PeerRecord.failure (← get).records with
  | none => return ()
  | some updated =>
    setRecords updated
    save

/-- The order of the candidates of `select_outbound`. -/
def preferred (left right : PeerRecord) : Bool :=
  if left.manual ≠ right.manual then left.manual
  else if left.lastSuccess ≠ right.lastSuccess then left.lastSuccess > right.lastSuccess
  else if left.failures ≠ right.failures then left.failures < right.failures
  else left.lastSeen > right.lastSeen

def selectOutbound (maximum : ℕ) (excluded : List PeerEndpoint) (s : PeerStore) : List PeerEndpoint :=
  let candidates := s.records.filter fun record =>
    ¬ (record.failures ≥ 10 ∨ excluded.any (record.endpoint = ·))
  ((candidates.mergeSort fun left right => ¬ preferred right left).map PeerRecord.endpoint).take maximum

/-- A call, with its arguments and the reading of the clock. -/
inductive Operation where
  | addIfMissing (record : PeerRecord)
  | addOrUpdate (record : PeerRecord)
  | markSuccess (now : Int64) (endpoint : PeerEndpoint) (services : UInt64)
  | markFailure (endpoint : PeerEndpoint)
  | load
  | save
  deriving DecidableEq

def Operation.exec : Operation → PeerM Unit
  | .addIfMissing record => do let _ ← PeerStore.addIfMissing record
  | .addOrUpdate record => PeerStore.addOrUpdate record
  | .markSuccess now endpoint services => PeerStore.markSuccess now endpoint services
  | .markFailure endpoint => PeerStore.markFailure endpoint
  | .load => PeerStore.load
  | .save => PeerStore.save

/-- The store after a call, whether it has returned or thrown. -/
def Operation.apply (operation : Operation) (s : PeerStore) : PeerStore :=
  match operation.exec.run s with
  | .ok _ s' => s'
  | .error _ s' => s'

/-- A store without records or file. -/
def empty : PeerStore := ⟨[], none⟩

end PeerStore

/-! ## What every operation keeps -/

/-- An endpoint that may be stored. -/
structure PeerEndpoint.Valid (endpoint : PeerEndpoint) : Prop where
  host : validHost endpoint.host
  port : endpoint.port ≠ 0

theorem PeerEndpoint.not_invalid_iff {endpoint : PeerEndpoint} :
    ¬ (¬ validHost endpoint.host ∨ endpoint.port = 0) ↔ endpoint.Valid := by
  rw [not_or, not_not]
  exact ⟨fun h => ⟨h.1, h.2⟩, fun h => ⟨h.host, h.port⟩⟩

theorem modifyFirst_eq_none {α : Type} {found : α → Bool} {change : α → α} {rs : List α} :
    modifyFirst found change rs = none ↔ ∀ r ∈ rs, found r = false := by
  induction rs with
  | nil => simp [modifyFirst]
  | cons r rs ih =>
    cases h : found r <;> simp [modifyFirst, h, ih]

theorem modifyFirst_eq_some {α : Type} {found : α → Bool} {change : α → α} {rs rs' : List α}
    (h : modifyFirst found change rs = some rs') :
    ∃ before r after, rs = before ++ r :: after ∧ found r ∧ rs' = before ++ change r :: after := by
  induction rs generalizing rs' with
  | nil => cases h
  | cons r rs ih =>
    rw [modifyFirst] at h
    split_ifs at h with hr
    · obtain rfl := Option.some.inj h
      exact ⟨[], r, rs, rfl, hr, rfl⟩
    · obtain ⟨rs'', hrest, rfl⟩ := Option.map_eq_some_iff.1 h
      obtain ⟨before, x, after, rfl, hx, rfl⟩ := ih hrest
      exact ⟨r :: before, x, after, rfl, hx, rfl⟩

/-- `change` of the first that is found, or `fresh` at the end where none is. -/
def upsertFirst {α : Type} (found : α → Bool) (change : α → α) (fresh : α) (rs : List α) : List α :=
  (modifyFirst found change rs).getD (rs ++ [fresh])

theorem upsertFirst_cases {α : Type} (found : α → Bool) (change : α → α) (fresh : α) (rs : List α) :
    (∃ before r after, rs = before ++ r :: after ∧ found r ∧
      upsertFirst found change fresh rs = before ++ change r :: after) ∨
    (∀ r ∈ rs, found r = false) ∧ upsertFirst found change fresh rs = rs ++ [fresh] := by
  unfold upsertFirst
  cases h : modifyFirst found change rs with
  | some rs' =>
    obtain ⟨before, r, after, hr, hfound, rfl⟩ := modifyFirst_eq_some h
    exact .inl ⟨before, r, after, hr, hfound, rfl⟩
  | none => exact .inr ⟨modifyFirst_eq_none.1 h, rfl⟩

namespace PeerStore

/-- Different endpoints, each of which may be stored. -/
structure Good (records : List PeerRecord) : Prop where
  nodup : (records.map PeerRecord.endpoint).Nodup
  valid : ∀ r ∈ records, r.endpoint.Valid

theorem Good.nil : Good [] := ⟨List.nodup_nil, by simp⟩

theorem Good.append {records : List PeerRecord} {r : PeerRecord} (h : Good records)
    (hvalid : r.endpoint.Valid) (hnew : ∀ x ∈ records, x.endpoint ≠ r.endpoint) :
    Good (records ++ [r]) := by
  constructor
  · rw [List.map_append, List.map_singleton, List.nodup_append]
    refine ⟨h.nodup, List.nodup_singleton _, ?_⟩
    intro a ha b hb
    obtain ⟨x, hx, rfl⟩ := List.mem_map.1 ha
    obtain rfl := List.mem_singleton.1 hb
    exact hnew x hx
  · intro x hx
    obtain hx | hx := List.mem_append.1 hx
    · exact h.valid x hx
    · obtain rfl := List.mem_singleton.1 hx
      exact hvalid

theorem Good.prefix {before after : List PeerRecord} (h : Good (before ++ after)) : Good before := by
  refine ⟨?_, fun r hr => h.valid r (List.mem_append_left _ hr)⟩
  have hnodup := h.nodup
  rw [List.map_append] at hnodup
  exact hnodup.of_append_left

theorem Good.change {before after : List PeerRecord} {r r' : PeerRecord}
    (h : Good (before ++ r :: after)) (he : r'.endpoint = r.endpoint) :
    Good (before ++ r' :: after) := by
  constructor
  · have hnodup := h.nodup
    simpa only [List.map_append, List.map_cons, he] using hnodup
  · intro x hx
    simp only [List.mem_append, List.mem_cons] at hx
    obtain hx | rfl | hx := hx
    · exact h.valid x (by simp [hx])
    · rw [he]
      exact h.valid r (by simp)
    · exact h.valid x (by simp [hx])

/-- The record of an endpoint changed, or `fresh` added where there is none. -/
def upsert (change : PeerRecord → PeerRecord) (fresh : PeerRecord) (records : List PeerRecord) :
    List PeerRecord :=
  upsertFirst (·.endpoint = fresh.endpoint) change fresh records

/-- What can become of the records, but for a load. -/
theorem upsert_cases (change : PeerRecord → PeerRecord) (fresh : PeerRecord)
    (records : List PeerRecord) :
    (∃ before r after, records = before ++ r :: after ∧ r.endpoint = fresh.endpoint ∧
      upsert change fresh records = before ++ change r :: after) ∨
    (∀ r ∈ records, r.endpoint ≠ fresh.endpoint) ∧
      upsert change fresh records = records ++ [fresh] := by
  obtain ⟨before, r, after, hr, hfound, hupsert⟩ | ⟨hnew, hupsert⟩ :=
    upsertFirst_cases (·.endpoint = fresh.endpoint) change fresh records
  · exact .inl ⟨before, r, after, hr, of_decide_eq_true hfound, hupsert⟩
  · exact .inr ⟨fun r hr => of_decide_eq_false (hnew r hr), hupsert⟩

/-- The same, where the endpoint is checked first. -/
def checkedUpsert (change : PeerRecord → PeerRecord) (fresh : PeerRecord)
    (records : List PeerRecord) : List PeerRecord :=
  if ¬ validHost fresh.endpoint.host ∨ fresh.endpoint.port = 0 then records
  else upsert change fresh records

theorem addOrUpdate_run (incoming : PeerRecord) (s : PeerStore) :
    (addOrUpdate incoming).run s =
      .ok () { s with records := checkedUpsert (·.merge incoming) incoming s.records } := by
  unfold addOrUpdate checkedUpsert upsert upsertFirst
  split_ifs
  · rfl
  rw [run_bind_of_ok (show (get : PeerM _).run s = .ok s s from rfl)]
  cases h : modifyFirst (·.endpoint = incoming.endpoint) (·.merge incoming) s.records <;>
    simp only [h] <;> rfl

theorem modifyFirst_id {α : Type} {found : α → Bool} {rs : List α} (h : rs.any found) :
    modifyFirst found id rs = some rs := by
  induction rs with
  | nil => cases h
  | cons r rs ih =>
    rw [modifyFirst]
    split_ifs with hr
    · rfl
    · rw [ih (by simpa [hr] using h)]
      rfl

theorem addIfMissing_run (incoming : PeerRecord) (s : PeerStore) : ∃ added,
    (addIfMissing incoming).run s =
      .ok added { s with records := checkedUpsert id incoming s.records } := by
  unfold addIfMissing checkedUpsert upsert upsertFirst
  split_ifs with hinvalid
  · exact ⟨false, rfl⟩
  rw [run_bind_of_ok (show (get : PeerM _).run s = .ok s s from rfl)]
  by_cases hpresent : s.records.any (·.endpoint = incoming.endpoint)
  · rw [modifyFirst_id hpresent]
    exact ⟨false, by simp only [hpresent, if_true]; rfl⟩
  · have hnone : modifyFirst (·.endpoint = incoming.endpoint) id s.records = none :=
      modifyFirst_eq_none.2 fun r hr => by
        rw [← Bool.not_eq_true]
        exact fun hfound => hpresent (List.any_eq_true.2 ⟨r, hr, hfound⟩)
    rw [hnone]
    exact ⟨true, by simp only [hpresent]; rfl⟩

theorem markSuccess_run (now : Int64) (endpoint : PeerEndpoint) (services : UInt64) (s : PeerStore) :
    ∃ records, records = upsert (·.success now services) ⟨endpoint, services, now, now, 0, false⟩
        s.records ∧
      (markSuccess now endpoint services).run s = .ok () ⟨records, some (text records)⟩ := by
  refine ⟨_, rfl, ?_⟩
  unfold markSuccess upsert upsertFirst
  rw [run_bind_of_ok (show (get : PeerM _).run s = .ok s s from rfl)]
  cases h : modifyFirst (·.endpoint = endpoint) (·.success now services) s.records <;>
    simp only [h] <;> rfl

theorem markFailure_run (endpoint : PeerEndpoint) (s : PeerStore) :
    modifyFirst (·.endpoint = endpoint) PeerRecord.failure s.records = none ∧
      (markFailure endpoint).run s = .ok () s ∨
    ∃ records, modifyFirst (·.endpoint = endpoint) PeerRecord.failure s.records = some records ∧
      (markFailure endpoint).run s = .ok () ⟨records, some (text records)⟩ := by
  unfold markFailure
  rw [run_bind_of_ok (show (get : PeerM _).run s = .ok s s from rfl)]
  cases h : modifyFirst (·.endpoint = endpoint) PeerRecord.failure s.records with
  | none => exact .inl ⟨rfl, rfl⟩
  | some records => exact .inr ⟨records, rfl, rfl⟩

/-! ## The file gives back what was saved -/

/-- What separates fields or lines stands in none of the fields. -/
theorem notMem_field {c : UInt8} {r : PeerRecord} (hdigit : ¬ IsDigit c) (hsign : c ≠ 45)
    (hhost : c ∉ r.endpoint.host) : ∀ f ∈ [r.endpoint.host, decimal r.endpoint.port.toNat,
      decimal r.services.toNat, toText r.lastSeen.toInt, toText r.lastSuccess.toInt,
      decimal r.failures.toNat, if r.manual then str "1" else str "0"], c ∉ f := by
  intro f hf
  simp only [List.mem_cons, List.not_mem_nil, or_false] at hf
  obtain rfl | rfl | rfl | rfl | rfl | rfl | rfl := hf
  · exact hhost
  · exact not_mem_decimal hdigit _
  · exact not_mem_decimal hdigit _
  · exact notMem_toText hdigit hsign _
  · exact notMem_toText hdigit hsign _
  · exact not_mem_decimal hdigit _
  · have hone : str "1" = decimal 1 := rfl
    have hzero : str "0" = decimal 0 := rfl
    rw [hone, hzero]
    split_ifs
    · exact not_mem_decimal hdigit _
    · exact not_mem_decimal hdigit _

theorem not_isDigit_tab : ¬ IsDigit tab := by
  unfold IsDigit
  decide

theorem not_isDigit_newline : ¬ IsDigit newline := by
  unfold IsDigit
  decide

theorem validHost_iff {host : Str} : validHost host ↔
    host ≠ [] ∧ host.length ≤ 255 ∧ tab ∉ host ∧ newline ∉ host ∧ 13 ∉ host :=
  decide_eq_true_iff

theorem fields_line {r : PeerRecord} (h : r.endpoint.Valid) : fields r.line tab =
    [r.endpoint.host, decimal r.endpoint.port.toNat, decimal r.services.toNat,
      toText r.lastSeen.toInt, toText r.lastSuccess.toInt, decimal r.failures.toNat,
      if r.manual then str "1" else str "0"] := by
  obtain ⟨-, -, htab, -, -⟩ := validHost_iff.1 h.host
  exact fields_intercalate (by simp) (notMem_field not_isDigit_tab (by decide) htab)

theorem newline_notMem_line {r : PeerRecord} (h : r.endpoint.Valid) : newline ∉ r.line := by
  obtain ⟨-, -, -, hnewline, -⟩ := validHost_iff.1 h.host
  exact notMem_intercalate (by decide) (notMem_field not_isDigit_newline (by decide) hnewline)

theorem line_ne_nil {r : PeerRecord} : r.line ≠ [] := intercalate_ne_nil

/-- A line of the file, read with the records before it. -/
theorem loadLine_line {s : PeerStore} {r : PeerRecord} (h : Good (s.records ++ [r])) :
    (loadLine r.line).run s = .ok () { s with records := s.records ++ [r] } := by
  have hvalid : r.endpoint.Valid := h.valid r (by simp)
  have hflag : decide ((if r.manual then str "1" else str "0") = str "1") = r.manual := by
    cases r.manual <;> decide
  have hport : ¬ (¬ validHost r.endpoint.host ∨ r.endpoint.port = 0) :=
    PeerEndpoint.not_invalid_iff.2 hvalid
  have hnew : ∀ x ∈ s.records, x.endpoint ≠ r.endpoint := by
    intro x hx he
    have hnodup := h.nodup
    rw [List.map_append, List.map_singleton, List.nodup_append] at hnodup
    exact hnodup.2.2 _ (List.mem_map_of_mem hx) _ (List.mem_singleton_self _) he
  have hadded : checkedUpsert (·.merge r) r s.records = s.records ++ [r] := by
    rw [checkedUpsert, if_neg hport]
    obtain ⟨before, x, after, hx, he, -⟩ | ⟨-, hadded⟩ := upsert_cases (·.merge r) r s.records
    · exact absurd he (hnew x (by simp [hx]))
    · exact hadded
  unfold loadLine
  rw [fields_line hvalid]
  simp only [run_bind_ok, lift_run_ok, parseNumberIn, orThrow_ok, throwIf_run_ok,
    unsigned_decimal r.endpoint.port.toNat_lt, unsigned_decimal r.services.toNat_lt,
    unsigned_decimal r.failures.toNat_lt, Option.map_some,
    signed_toText r.lastSeen.le_toInt r.lastSeen.toInt_lt,
    signed_toText r.lastSuccess.le_toInt r.lastSuccess.toInt_lt,
    Option.some.injEq, UInt16.ofNat_toNat, UInt32.ofNat_toNat, UInt64.ofNat_toNat,
    Int64.ofInt_toInt, hflag]
  refine ⟨_, s, ⟨rfl, rfl⟩, _, s, ⟨rfl, rfl⟩, _, s, ⟨rfl, rfl⟩, _, s, ⟨rfl, rfl⟩, _, s, ⟨rfl, rfl⟩,
    (), s, ⟨hport, rfl⟩, ?_⟩
  rw [addOrUpdate_run, hadded]

theorem load_text {records old : List PeerRecord} (h : Good records) :
    load.run ⟨old, some (text records)⟩ = .ok () ⟨records, some (text records)⟩ := by
  have hlines : lines (text records) = peersMagic :: records.map PeerRecord.line :=
    lines_records (by decide) fun r hr => newline_notMem_line (h.valid r hr)
  have hgood : ∀ before r after, records = before ++ r :: after → Good (before ++ [r]) := by
    rintro before r after rfl
    rw [List.append_cons] at h
    exact h.prefix
  have hread := forM_records (fun read : List PeerRecord => PeerStore.mk read (some (text records)))
    (fun _ _ => line_ne_nil) fun before r after (hsplit : records = before ++ r :: after) =>
      loadLine_line (s := ⟨before, some (text records)⟩) (hgood before r after hsplit)
  have hclear : (setRecords [] : PeerM Unit).run ⟨old, some (text records)⟩ =
      .ok () ⟨[], some (text records)⟩ := rfl
  unfold load
  rw [run_bind_of_ok hclear, run_bind_of_ok (show (get : PeerM _).run _ = .ok _ _ from rfl)]
  simp only [hlines]
  rw [run_bind_of_ok (a := ()) (throwIf_run_ok.2 ⟨not_not.2 rfl, rfl⟩)]
  exact hread

/-! ## Whole histories -/

/-- The records, and those that the file was written from, meet `P`. -/
structure Holds (P : List PeerRecord → Prop) (s : PeerStore) : Prop where
  records : P s.records
  file : ∀ content, s.file = some content → ∃ records, P records ∧ content = text records

variable {P : List PeerRecord → Prop} {s : PeerStore}

theorem Holds.empty (h : P []) : Holds P empty := ⟨h, nofun⟩

theorem Holds.keep {records : List PeerRecord} (h : Holds P s) (hP : P records) :
    Holds P { s with records := records } := ⟨hP, h.file⟩

theorem Holds.saved {records : List PeerRecord} (hP : P records) :
    Holds P ⟨records, some (text records)⟩ :=
  ⟨hP, fun _ h => ⟨records, hP, (Option.some.inj h).symm⟩⟩

/-- What a call makes of the records; `load` takes them from the file. -/
def Operation.edit : Operation → List PeerRecord → List PeerRecord
  | .addIfMissing record => checkedUpsert id record
  | .addOrUpdate record => checkedUpsert (·.merge record) record
  | .markSuccess now endpoint services =>
    upsert (·.success now services) ⟨endpoint, services, now, now, 0, false⟩
  | .markFailure endpoint => fun records =>
    (modifyFirst (·.endpoint = endpoint) PeerRecord.failure records).getD records
  | .load => id
  | .save => id

theorem Holds.apply {operation : Operation} (hgood : ∀ records, P records → Good records)
    (hnil : P []) (hedit : P (operation.edit s.records)) (h : Holds P s) :
    Holds P (operation.apply s) := by
  cases operation with
  | addIfMissing record =>
    obtain ⟨added, hrun⟩ := addIfMissing_run record s
    have happly : (Operation.addIfMissing record).apply s =
        { s with records := checkedUpsert id record s.records } := by
      simp only [Operation.apply, Operation.exec]
      rw [run_bind_of_ok hrun]
      rfl
    rw [happly]
    exact h.keep hedit
  | addOrUpdate record =>
    simp only [Operation.apply, Operation.exec, addOrUpdate_run]
    exact h.keep hedit
  | markSuccess now endpoint services =>
    obtain ⟨records, rfl, hrun⟩ := markSuccess_run now endpoint services s
    simp only [Operation.apply, Operation.exec, hrun]
    exact Holds.saved hedit
  | markFailure endpoint =>
    simp only [Operation.apply, Operation.exec]
    obtain ⟨-, hrun⟩ | ⟨records, hrecords, hrun⟩ := markFailure_run endpoint s
    · rw [hrun]
      exact h
    · simp only [Operation.edit, hrecords, Option.getD_some] at hedit
      rw [hrun]
      exact Holds.saved hedit
  | load =>
    simp only [Operation.apply, Operation.exec]
    cases hfile : s.file with
    | none =>
      have hrun : load.run s = .ok () { s with records := [] } := by
        obtain ⟨_, _⟩ := s
        obtain rfl := hfile
        rfl
      rw [hrun]
      exact h.keep hnil
    | some content =>
      obtain ⟨records, hP, rfl⟩ := h.file content hfile
      obtain ⟨old, _⟩ := s
      obtain rfl := hfile
      rw [load_text (hgood _ hP)]
      exact Holds.saved hP
  | save => exact Holds.saved hedit

/-- The condition under which a call keeps the store readable: `mark_success` does not check its
    endpoint. -/
def Operation.Valid : Operation → Prop
  | .markSuccess _ endpoint _ => endpoint.Valid
  | _ => True

theorem Good.upsert {change : PeerRecord → PeerRecord} {fresh : PeerRecord}
    {records : List PeerRecord} (h : Good records) (hvalid : fresh.endpoint.Valid)
    (hchange : ∀ r, (change r).endpoint = r.endpoint) : Good (upsert change fresh records) := by
  obtain ⟨before, r, after, rfl, -, hr⟩ | ⟨hnew, hr⟩ := upsert_cases change fresh records
  · rw [hr]
    exact h.change (hchange r)
  · rw [hr]
    exact h.append hvalid hnew

theorem Good.checkedUpsert {change : PeerRecord → PeerRecord} {fresh : PeerRecord}
    {records : List PeerRecord} (h : Good records)
    (hchange : ∀ r, (change r).endpoint = r.endpoint) :
    Good (checkedUpsert change fresh records) := by
  unfold PeerStore.checkedUpsert
  split_ifs with hinvalid
  · exact h
  · exact h.upsert (PeerEndpoint.not_invalid_iff.1 hinvalid) hchange

theorem Good.edit {operation : Operation} (hop : operation.Valid) {records : List PeerRecord}
    (h : Good records) : Good (operation.edit records) := by
  cases operation with
  | addIfMissing record => exact h.checkedUpsert fun _ => rfl
  | addOrUpdate record => exact h.checkedUpsert fun _ => rfl
  | markSuccess now endpoint services => exact h.upsert hop fun _ => rfl
  | markFailure endpoint =>
    cases hm : modifyFirst (·.endpoint = endpoint) PeerRecord.failure records with
    | none => simpa [Operation.edit, hm] using h
    | some records' =>
      obtain ⟨before, r, after, rfl, -, rfl⟩ := modifyFirst_eq_some hm
      have hgood : Good (before ++ r.failure :: after) := h.change rfl
      simpa [Operation.edit, hm] using hgood
  | load => exact h
  | save => exact h

/-- The store after calls. -/
def calls (operations : List Operation) (s : PeerStore) : PeerStore :=
  operations.foldl (fun s operation => operation.apply s) s

/-- The store after calls on an empty one. -/
def afterCalls (operations : List Operation) : PeerStore := calls operations empty

theorem afterCalls_append_singleton (operations : List Operation) (operation : Operation) :
    afterCalls (operations ++ [operation]) = operation.apply (afterCalls operations) := by
  rw [afterCalls, calls, List.foldl_append]
  rfl

theorem holds_afterCalls {operations : List Operation}
    (h : ∀ operation ∈ operations, operation.Valid) : Holds Good (afterCalls operations) := by
  induction operations using List.reverseRecOn with
  | nil => exact Holds.empty Good.nil
  | append_singleton operations operation ih =>
    rw [afterCalls_append_singleton]
    have hs := ih fun x hx => h x (List.mem_append_left _ hx)
    exact hs.apply (fun _ => id) Good.nil (hs.records.edit (h operation (by simp)))

/-- Different endpoints that may be stored, and a fresh store that reads back what `save` writes. -/
structure Sound (s : PeerStore) : Prop where
  nodup : (s.records.map PeerRecord.endpoint).Nodup
  host : ∀ r ∈ s.records, validHost r.endpoint.host
  port : ∀ r ∈ s.records, r.endpoint.port ≠ 0
  reload : ∃ s', load.run { empty with file := (Operation.save.apply s).file } = .ok () s' ∧
    s'.records = s.records

theorem Good.sound (h : Good s.records) : Sound s where
  nodup := h.nodup
  host r hr := (h.valid r hr).host
  port r hr := (h.valid r hr).port
  reload := ⟨⟨s.records, some (text s.records)⟩, load_text h, rfl⟩

/-- After `mark_success` its endpoint is stored. -/
theorem markSuccess_stored (now : Int64) (endpoint : PeerEndpoint) (services : UInt64)
    (s : PeerStore) :
    ∃ r ∈ ((Operation.markSuccess now endpoint services).apply s).records, r.endpoint = endpoint := by
  obtain ⟨records, rfl, hrun⟩ := markSuccess_run now endpoint services s
  simp only [Operation.apply, Operation.exec, hrun]
  obtain ⟨before, r, after, -, he, hr⟩ | ⟨-, hr⟩ := upsert_cases (·.success now services)
    ⟨endpoint, services, now, now, 0, false⟩ s.records
  · rw [hr]
    exact ⟨r.success now services, by simp, he⟩
  · rw [hr]
    exact ⟨⟨endpoint, services, now, now, 0, false⟩, by simp, rfl⟩

/-- In the histories without an invalid `mark_success`, and in no other, the store is at all times
    what it should be. -/
theorem sound_iff (operations : List Operation) :
    (∀ earlier, earlier <+: operations → Sound (afterCalls earlier)) ↔
      ∀ operation ∈ operations, operation.Valid := by
  constructor
  · intro h operation hop
    cases operation with
    | markSuccess now endpoint services =>
      obtain ⟨before, after, rfl⟩ := List.append_of_mem hop
      have hprefix : before ++ [.markSuccess now endpoint services] <+:
          before ++ .markSuccess now endpoint services :: after := ⟨after, by simp⟩
      have hs := h _ hprefix
      rw [afterCalls_append_singleton] at hs
      obtain ⟨r, hr, rfl⟩ := markSuccess_stored now endpoint services (afterCalls before)
      exact ⟨hs.host r hr, hs.port r hr⟩
    | _ => trivial
  · intro h earlier hearlier
    exact (holds_afterCalls fun x hx => h x (hearlier.subset hx)).records.sound

/-- The endpoint with an empty host is stored, and the file is not read again. -/
theorem mark_success_unreadable :
    ¬ Sound (afterCalls [.markSuccess 0 ⟨[], 1⟩ 0]) ∧
    ∃ s, load.run { empty with file := (afterCalls [.markSuccess 0 ⟨[], 1⟩ 0]).file } =
      .error (runtimeError "Invalid peers.dat endpoint") s := by
  constructor
  · intro h
    exact absurd (h.host ⟨⟨[], 1⟩, 0, 0, 0, 0, false⟩ (by decide)) (by decide)
  · exact ⟨_, rfl⟩

/-! ## Failures -/

/-- The record that the handler of `addrv2` makes of an address of the message. -/
def gossiped (now : Int64) (endpoint : PeerEndpoint) (services : UInt64) (timestamp : UInt32) :
    PeerRecord :=
  ⟨endpoint, services, min (Int64.ofNat timestamp.toNat) (now + 600), 0, 0, false⟩

/-- The calls that leave the failures of an endpoint alone: no success of it is marked, its record
    is not merged with another's, and it is stored when it is added or fails. -/
def Operation.Keeps (endpoint : PeerEndpoint) (s : PeerStore) : Operation → Prop
  | .addIfMissing record =>
    record.endpoint = endpoint → ∃ r ∈ s.records, r.endpoint = endpoint
  | .addOrUpdate record => record.endpoint ≠ endpoint
  | .markSuccess _ other _ => other ≠ endpoint ∧ other.Valid
  | .markFailure other => other = endpoint → ∃ r ∈ s.records, r.endpoint = endpoint
  | .load => True
  | .save => True

/-- Different, valid endpoints, and at least `count` failures of one of them, or ten. -/
structure Failing (endpoint : PeerEndpoint) (count : ℕ) (records : List PeerRecord) : Prop where
  good : Good records
  failures : ∀ r ∈ records, r.endpoint = endpoint → min count 10 ≤ r.failures.toNat

variable {endpoint : PeerEndpoint} {count : ℕ} {records : List PeerRecord}

theorem Good.failing (h : Good records) : Failing endpoint 0 records := ⟨h, by simp⟩

theorem Failing.upsert {change : PeerRecord → PeerRecord} {fresh : PeerRecord}
    (h : Failing endpoint count records) (hvalid : fresh.endpoint.Valid)
    (hchange : ∀ r, (change r).endpoint = r.endpoint) (hfresh : fresh.endpoint ≠ endpoint) :
    Failing endpoint count (upsert change fresh records) := by
  refine ⟨h.good.upsert hvalid hchange, ?_⟩
  intro x hx hxe
  obtain ⟨before, r, after, rfl, he, hr⟩ | ⟨-, hr⟩ := upsert_cases change fresh records
  · rw [hr] at hx
    simp only [List.mem_append, List.mem_cons] at hx
    obtain hx | rfl | hx := hx
    · exact h.failures x (by simp [hx]) hxe
    · rw [hchange, he] at hxe
      exact absurd hxe hfresh
    · exact h.failures x (by simp [hx]) hxe
  · rw [hr] at hx
    obtain hx | hx := List.mem_append.1 hx
    · exact h.failures x hx hxe
    · obtain rfl := List.mem_singleton.1 hx
      exact absurd hxe hfresh

theorem upsert_id_of_mem {fresh : PeerRecord} (h : ∃ r ∈ records, r.endpoint = fresh.endpoint) :
    upsert id fresh records = records := by
  obtain ⟨r, hr, he⟩ := h
  obtain ⟨before, x, after, hx, -, hupsert⟩ | ⟨hnew, -⟩ := upsert_cases id fresh records
  · rw [hupsert, hx]
    rfl
  · exact absurd he (hnew r hr)

theorem toNat_failure (r : PeerRecord) :
    r.failure.failures.toNat = if r.failures.toNat < 1000000 then r.failures.toNat + 1
      else r.failures.toNat := by
  have hlt : r.failures < 1000000 ↔ r.failures.toNat < 1000000 := UInt32.lt_iff_toNat_lt
  unfold PeerRecord.failure
  by_cases h : r.failures < 1000000
  · have h' := hlt.1 h
    simp only [h, h', if_true, UInt32.toNat_add, UInt32.toNat_one]
    exact Nat.mod_eq_of_lt (by omega)
  · have h' : ¬ r.failures.toNat < 1000000 := fun h' => h (hlt.2 h')
    simp only [h, h', if_false]

theorem Good.other {before after : List PeerRecord} {r x : PeerRecord}
    (h : Good (before ++ r :: after)) (hx : x ∈ before ++ after) : x.endpoint ≠ r.endpoint := by
  intro he
  have hnodup := h.nodup
  rw [List.map_append, List.map_cons, List.nodup_middle, ← List.map_append, List.nodup_cons] at hnodup
  exact hnodup.1 (he ▸ List.mem_map_of_mem hx)

/-- A failure of an endpoint counts for it and for no other. -/
theorem Failing.markFailure {other : PeerEndpoint} (h : Failing endpoint count records)
    (hstored : other = endpoint → ∃ r ∈ records, r.endpoint = endpoint) :
    Failing endpoint (if other = endpoint then count + 1 else count)
      ((Operation.markFailure other).edit records) := by
  simp only [Operation.edit]
  cases hm : modifyFirst (·.endpoint = other) PeerRecord.failure records with
  | none =>
    have hother : other ≠ endpoint := by
      intro he
      obtain ⟨r, hr, hre⟩ := hstored he
      exact of_decide_eq_false (modifyFirst_eq_none.1 hm r hr) (hre.trans he.symm)
    rw [if_neg hother]
    exact h
  | some records' =>
    obtain ⟨before, r, after, rfl, hfound, rfl⟩ := modifyFirst_eq_some hm
    obtain rfl : r.endpoint = other := of_decide_eq_true hfound
    refine ⟨h.good.change rfl, fun x hx hxe => ?_⟩
    obtain hx | hx : x = r.failure ∨ x ∈ before ++ after := by
      simp only [Option.getD_some, List.mem_append, List.mem_cons] at hx ⊢
      tauto
    · obtain rfl := hx
      have hre : r.endpoint = endpoint := hxe
      have hr := h.failures r (by simp) hre
      rw [if_pos hre, toNat_failure]
      split_ifs <;> omega
    · have hother : r.endpoint ≠ endpoint := fun he => h.good.other hx (hxe.trans he.symm)
      rw [if_neg hother]
      refine h.failures x ?_ hxe
      simp only [List.mem_append, List.mem_cons] at hx ⊢
      tauto

/-- The failures that a call marks for an endpoint. -/
def Operation.marks (endpoint : PeerEndpoint) : Operation → ℕ
  | .markFailure other => if other = endpoint then 1 else 0
  | _ => 0

theorem Failing.checkedUpsert {change : PeerRecord → PeerRecord} {fresh : PeerRecord}
    (h : Failing endpoint count records) (hchange : ∀ r, (change r).endpoint = r.endpoint)
    (hfresh : fresh.endpoint ≠ endpoint) :
    Failing endpoint count (checkedUpsert change fresh records) := by
  unfold PeerStore.checkedUpsert
  split_ifs with hinvalid
  · exact h
  · exact h.upsert (PeerEndpoint.not_invalid_iff.1 hinvalid) hchange hfresh

theorem Failing.edit {operation : Operation} (h : Failing endpoint count s.records)
    (hkeeps : operation.Keeps endpoint s) :
    Failing endpoint (count + operation.marks endpoint) (operation.edit s.records) := by
  cases operation with
  | addIfMissing record =>
    by_cases he : record.endpoint = endpoint
    · have hsame : PeerStore.checkedUpsert id record s.records = s.records := by
        unfold PeerStore.checkedUpsert
        split_ifs
        · rfl
        · exact upsert_id_of_mem (he ▸ hkeeps he)
      simp only [Operation.edit, hsame]
      exact h
    · exact h.checkedUpsert (fun _ => rfl) he
  | addOrUpdate record => exact h.checkedUpsert (fun _ => rfl) hkeeps
  | markSuccess now other services => exact h.upsert hkeeps.2 (fun _ => rfl) hkeeps.1
  | markFailure other =>
    have hnext := h.markFailure hkeeps
    simp only [Operation.marks]
    split_ifs at hnext ⊢
    · exact hnext
    · exact hnext
  | load => exact h
  | save => exact h

theorem Failing.nil : Failing endpoint count [] := ⟨Good.nil, by simp⟩

/-- The step lemma: the failures in the store and in its file grow with those that are marked. -/
theorem failing_apply {operation : Operation} (hkeeps : operation.Keeps endpoint s)
    (h : Holds (Failing endpoint count) s) :
    Holds (Failing endpoint (count + operation.marks endpoint)) (operation.apply s) := by
  have hedit := h.records.edit hkeeps
  by_cases hmark : operation = .markFailure endpoint
  · obtain rfl := hmark
    simp only [Operation.apply, Operation.exec]
    obtain ⟨hnone, -⟩ | ⟨records, hrecords, hrun⟩ := markFailure_run endpoint s
    · obtain ⟨r, hr, he⟩ := hkeeps rfl
      exact absurd he (of_decide_eq_false (modifyFirst_eq_none.1 hnone r hr))
    · simp only [Operation.edit, hrecords, Option.getD_some] at hedit
      rw [hrun]
      exact Holds.saved hedit
  · have hmarks : operation.marks endpoint = 0 := by
      cases operation with
      | markFailure other => exact if_neg fun he => hmark (by rw [he])
      | _ => rfl
    rw [hmarks] at hedit ⊢
    exact h.apply (fun _ => Failing.good) Failing.nil hedit

/-- A call that keeps the failures of an endpoint, and what it makes of the store. -/
def KeepsStep (endpoint : PeerEndpoint) (s : PeerStore) (operation : Operation) (s' : PeerStore) :
    Prop :=
  operation.Keeps endpoint s ∧ s' = operation.apply s

theorem failing_run {operations : List Operation} {s' : PeerStore}
    (h : Run (KeepsStep endpoint) s operations s') (hs : Holds (Failing endpoint count) s) :
    Holds (Failing endpoint (count + (operations.map (·.marks endpoint)).sum)) s' := by
  induction h generalizing count with
  | nil => exact hs
  | cons head _ ih =>
    obtain ⟨hkeeps, rfl⟩ := head
    rw [List.map_cons, List.sum_cons, ← add_assoc]
    exact ih (failing_apply hkeeps hs)

theorem sum_marks (operations : List Operation) :
    (operations.map (·.marks endpoint)).sum = operations.count (.markFailure endpoint) := by
  induction operations with
  | nil => rfl
  | cons operation operations ih =>
    rw [List.map_cons, List.sum_cons, ih, List.count_cons, add_comm]
    cases operation <;> simp [Operation.marks]

theorem Failing.mono {count' : ℕ} (h : Failing endpoint count records) (hle : count' ≤ count) :
    Failing endpoint count' records :=
  ⟨h.good, fun r hr he => le_trans (by omega) (h.failures r hr he)⟩

theorem Failing.notMem_selectOutbound (h : Failing endpoint 10 s.records) (maximum : ℕ)
    (excluded : List PeerEndpoint) : endpoint ∉ selectOutbound maximum excluded s := by
  intro hmem
  obtain ⟨r, hr, he⟩ := List.mem_map.1 (List.mem_of_mem_take hmem)
  obtain ⟨hr, hcandidate⟩ := List.mem_filter.1 (List.mem_mergeSort.1 hr)
  have hten := h.failures r hr he
  have hle : (10 : UInt32) ≤ r.failures := UInt32.le_iff_toNat_le.2 hten
  simp [hle] at hcandidate

/-- An endpoint that fails ten times after calls on an empty store, with only calls in between that
    keep its failures, is not selected. -/
theorem failed_not_selected {earlier operations : List Operation}
    (hearlier : ∀ operation ∈ earlier, operation.Valid)
    (hrun : Run (KeepsStep endpoint) (afterCalls earlier) operations s)
    (hten : 10 ≤ operations.count (.markFailure endpoint)) (maximum : ℕ)
    (excluded : List PeerEndpoint) : endpoint ∉ selectOutbound maximum excluded s := by
  have hgood := holds_afterCalls hearlier
  have hstart : Holds (Failing endpoint 0) (afterCalls earlier) := by
    refine ⟨hgood.records.failing, fun content hcontent => ?_⟩
    obtain ⟨records, hrecords, htext⟩ := hgood.file content hcontent
    exact ⟨records, hrecords.failing, htext⟩
  have hend := (failing_run hrun hstart).records
  rw [zero_add, sum_marks] at hend
  exact (hend.mono hten).notMem_selectOutbound maximum excluded

theorem run_failures (n : ℕ) (hstored : ∃ r ∈ s.records, r.endpoint = endpoint) :
    Run (KeepsStep endpoint) s (List.replicate n (.markFailure endpoint))
      (calls (List.replicate n (.markFailure endpoint)) s) := by
  induction n generalizing s with
  | zero => exact .nil
  | succ n ih =>
    rw [List.replicate_succ]
    refine .cons ⟨fun _ => hstored, rfl⟩ (ih ?_)
    obtain ⟨hnone, -⟩ | ⟨records, hrecords, hrun⟩ := markFailure_run endpoint s
    · obtain ⟨r, hr, he⟩ := hstored
      exact absurd he (of_decide_eq_false (modifyFirst_eq_none.1 hnone r hr))
    · obtain ⟨before, r, after, -, hfound, rfl⟩ := modifyFirst_eq_some hrecords
      simp only [Operation.apply, Operation.exec, hrun]
      exact ⟨r.failure, by simp, of_decide_eq_true hfound⟩

theorem failed_not_selected_ten :
    (⟨str "10.0.0.1", 18444⟩ : PeerEndpoint) ∉ selectOutbound 8 []
      (calls (List.replicate 10 (.markFailure ⟨str "10.0.0.1", 18444⟩))
        (afterCalls [.addIfMissing ⟨⟨str "10.0.0.1", 18444⟩, 0, 0, 0, 0, false⟩])) :=
  failed_not_selected (fun _ h => by obtain rfl := List.mem_singleton.1 h; trivial)
    (run_failures 10 ⟨⟨⟨str "10.0.0.1", 18444⟩, 0, 0, 0, 0, false⟩, by decide, rfl⟩)
    (by rw [List.count_replicate_self]) 8 []

/-- Ten failures, and one message with the address among them. -/
theorem gossip_revives :
    (⟨str "10.0.0.1", 18444⟩ : PeerEndpoint) ∈ selectOutbound 8 [] (afterCalls
      (.addIfMissing ⟨⟨str "10.0.0.1", 18444⟩, 0, 0, 0, 0, false⟩ ::
        List.replicate 10 (.markFailure ⟨str "10.0.0.1", 18444⟩) ++
        [.addOrUpdate (gossiped 1000 ⟨str "10.0.0.1", 18444⟩ 1 900)])) := by
  decide +kernel

end PeerStore

end BinaryCoin
