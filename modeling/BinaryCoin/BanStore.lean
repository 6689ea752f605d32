/-
  BinaryCoin — ban_store.cpp: the banned hosts and their file.

  The store is a map from hosts to expiry times that forgets what has expired.
  `Tracks` relates it to the history of the bans.
-/
import BinaryCoin.PeerStore

namespace BinaryCoin

open Cursor Text

structure BanRecord where
  host : Str
  bannedUntil : Int64
  score : UInt32
  reason : Str
  deriving DecidableEq

/-- The object and the file `banlist-v1.tsv`, where there is one. -/
structure BanStore where
  records : List BanRecord
  file : Option Str

abbrev BanM := EStateM Exn BanStore

def banlistMagic : Str := str "BINARYCOIN_BANLIST_V1"

namespace BanStore

/-- The characters that a field must not contain. -/
def separators : List UInt8 := [tab, 13, newline]

/-- `valid_host` -/
def validHost (host : Str) : Bool :=
  host ≠ [] ∧ host.length ≤ 255 ∧ ∀ c ∈ host, c ∉ separators

/-- `sanitize_reason` -/
def sanitizeReason (reason : Str) : Str :=
  (reason.map fun c => if c ∈ separators then 32 else c).take 160

/-- A line of the file. -/
def line (record : BanRecord) : Str :=
  [tab].intercalate [record.host, toText record.bannedUntil.toInt, decimal record.score.toNat,
    sanitizeReason record.reason]

def setRecords (records : List BanRecord) : BanM Unit := modify fun s => { s with records := records }

/-- The text of the file. -/
def text (records : List BanRecord) : Str := unlines (banlistMagic :: records.map line)

/-- The file is replaced at once, after all of it has been written. -/
def save : BanM Unit := modify fun s => { s with file := some (text s.records) }

/-- An argument of 0 stands for the clock. -/
def effective (clock now : Int64) : Int64 := if now = 0 then clock else now

def pruneExpired (clock now : Int64) : BanM Unit := do
  setRecords ((← get).records.filter fun record => ¬ record.bannedUntil ≤ effective clock now)

/-- The body of the loop of `load`, on a line that is not empty. -/
def loadLine (line : Str) : BanM Unit := do
  match fields line tab with
  | [host, expiry, score, reason] =>
    let expiry ← parseNumberIn "banlist" "expiry" ((signed (2 ^ 63) expiry).map Int64.ofInt)
    let score ← parseNumberIn "banlist" "score" ((unsigned 10 (2 ^ 32) score).map UInt32.ofNat)
    throwIf (¬ validHost host) (runtimeError "Invalid banlist host")
    setRecords ((← get).records ++ [⟨host, expiry, score, reason⟩])
  | _ => throw (runtimeError "Malformed banlist-v1.tsv record")

def load (clock : Int64) : BanM Unit := do
  setRecords []
  match (← get).file with
  | none => return ()
  | some text =>
    match lines text with
    | [] => throw (runtimeError "Invalid banlist-v1.tsv header")
    | magic :: records =>
      throwIf (magic ≠ banlistMagic) (runtimeError "Invalid banlist-v1.tsv header")
      forM (records.filter (· ≠ [])) loadLine
      pruneExpired clock 0

def ban (clock : Int64) (host : Str) (duration : Int64) (score : UInt32) (reason : Str) :
    BanM Unit := do
  if ¬ validHost host ∨ duration ≤ 0 then return ()
  let expiry := clock + duration
  let records := (← get).records
  match modifyFirst (·.host = host) (fun stored => { stored with
      bannedUntil := max stored.bannedUntil expiry, score := max stored.score score
      reason := sanitizeReason reason }) records with
  | none => setRecords (records ++ [⟨host, expiry, score, sanitizeReason reason⟩])
  | some updated => setRecords updated
  save

def clear : BanM Unit := do
  setRecords []
  save

def isBanned (clock : Int64) (host : Str) (now : Int64) (s : BanStore) : Bool :=
  s.records.any fun record => record.host = host ∧ record.bannedUntil > effective clock now

/-- The calls, each at a reading of the clock; `reload` is `save` and then `load`. -/
inductive Operation where
  | ban (clock : Int64) (host : Str) (duration : Int64) (score : UInt32) (reason : Str)
  | pruneExpired (clock : Int64)
  | reload (clock : Int64)
  | clear (clock : Int64)

namespace Operation

def clock : Operation → Int64
  | .ban clock _ _ _ _ => clock
  | .pruneExpired clock => clock
  | .reload clock => clock
  | .clear clock => clock

def exec : Operation → BanM Unit
  | .ban clock host duration score reason => BanStore.ban clock host duration score reason
  | .pruneExpired clock => BanStore.pruneExpired clock 0
  | .reload clock => do
    BanStore.save
    BanStore.load clock
  | .clear _ => BanStore.clear

/-- The store after a call, whether it has returned or thrown. -/
def apply (operation : Operation) (s : BanStore) : BanStore :=
  match operation.exec.run s with
  | .ok _ s' => s'
  | .error _ s' => s'

end Operation

/-- A store without records or file. -/
def empty : BanStore := ⟨[], none⟩

/-- The store after calls on an empty one. -/
def afterCalls (operations : List Operation) : BanStore :=
  operations.foldl (fun s operation => operation.apply s) empty

/-! ## What the history says -/

/-- Since the last `clear`, the host has been banned until `expiry`. -/
def BansUntil (operations : List Operation) (host : Str) (expiry : ℤ) : Prop :=
  ∃ before clock duration score reason after,
    operations = before ++ .ban clock host duration score reason :: after ∧
    (∀ t, .clear t ∉ after) ∧ validHost host ∧ 0 < duration ∧
    expiry = clock.toInt + duration.toInt

/-- The clock does not go back, and no expiry overflows. -/
structure Timed (operations : List Operation) : Prop where
  ordered : (operations.map Operation.clock).Pairwise (· ≤ ·)
  bounded : ∀ clock host duration score reason, .ban clock host duration score reason ∈ operations →
    0 < duration → clock.toInt + duration.toInt < 2 ^ 63

theorem bansUntil_append {operations : List Operation} {operation : Operation} {host : Str}
    {expiry : ℤ} : BansUntil (operations ++ [operation]) host expiry ↔
      (∃ clock duration score reason, operation = .ban clock host duration score reason ∧
        validHost host ∧ 0 < duration ∧ expiry = clock.toInt + duration.toInt) ∨
      BansUntil operations host expiry ∧ ∀ t, operation ≠ .clear t := by
  constructor
  · rintro ⟨before, clock, duration, score, reason, after, heq, hclear, h⟩
    cases after using List.reverseRecOn with
    | nil =>
      obtain ⟨-, hlast⟩ := List.append_inj' heq rfl
      exact .inl ⟨clock, duration, score, reason, List.singleton_inj.1 hlast, h⟩
    | append_singleton after last =>
      rw [← List.cons_append, ← List.append_assoc] at heq
      obtain ⟨rfl, hlast⟩ := List.append_inj' heq rfl
      obtain rfl := List.singleton_inj.1 hlast
      refine .inr ⟨⟨before, clock, duration, score, reason, after, rfl, ?_, h⟩, ?_⟩
      · exact fun t ht => hclear t (List.mem_append_left _ ht)
      · rintro t rfl
        exact hclear t (by simp)
  · rintro (⟨clock, duration, score, reason, rfl, h⟩ |
      ⟨⟨before, clock, duration, score, reason, after, rfl, hclear, h⟩, hop⟩)
    · exact ⟨operations, clock, duration, score, reason, [], rfl, by simp, h⟩
    · refine ⟨before, clock, duration, score, reason, after ++ [operation], by simp, ?_, h⟩
      intro t ht
      obtain ht | ht := List.mem_append.1 ht
      · exact hclear t ht
      · exact hop t (List.mem_singleton.1 ht).symm

/-! ## The file gives back what was saved -/

/-- A host that may be stored and a reason as it is stored. -/
structure Clean (record : BanRecord) : Prop where
  host : validHost record.host
  reason : ∀ c ∈ record.reason, c ∉ separators
  length : record.reason.length ≤ 160

theorem validHost_iff {host : Str} : validHost host ↔
    host ≠ [] ∧ host.length ≤ 255 ∧ ∀ c ∈ host, c ∉ separators :=
  decide_eq_true_iff

theorem notMem_sanitizeReason (reason : Str) : ∀ c ∈ sanitizeReason reason, c ∉ separators := by
  intro c hc
  obtain ⟨c', -, rfl⟩ := List.mem_map.1 (List.mem_of_mem_take hc)
  split_ifs with hsep
  · decide
  · exact hsep

theorem length_sanitizeReason (reason : Str) : (sanitizeReason reason).length ≤ 160 :=
  List.length_take_le _ _

theorem sanitizeReason_clean {reason : Str} (h : ∀ c ∈ reason, c ∉ separators)
    (hlength : reason.length ≤ 160) : sanitizeReason reason = reason := by
  have hmap : (reason.map fun c => if c ∈ separators then 32 else c) = reason := by
    conv_rhs => rw [← List.map_id reason]
    exact List.map_congr_left fun c hc => if_neg (h c hc)
  rw [sanitizeReason, hmap, List.take_of_length_le hlength]

theorem Clean.notMem_field {record : BanRecord} (h : Clean record) {c : UInt8}
    (hc : c ∈ separators) : ∀ f ∈ [record.host, toText record.bannedUntil.toInt,
      decimal record.score.toNat, sanitizeReason record.reason], c ∉ f := by
  have hdigit : ¬ IsDigit c := by
    simp only [separators, List.mem_cons, List.not_mem_nil, or_false] at hc
    unfold IsDigit
    obtain rfl | rfl | rfl := hc <;> decide
  have hsign : c ≠ 45 := by
    rintro rfl
    exact absurd hc (by decide)
  intro f hf
  simp only [List.mem_cons, List.not_mem_nil, or_false] at hf
  obtain rfl | rfl | rfl | rfl := hf
  · exact fun hmem => (validHost_iff.1 h.host).2.2 c hmem hc
  · exact notMem_toText hdigit hsign _
  · exact not_mem_decimal hdigit _
  · exact fun hmem => notMem_sanitizeReason _ c hmem hc

theorem Clean.fields_line {record : BanRecord} (h : Clean record) : fields (line record) tab =
    [record.host, toText record.bannedUntil.toInt, decimal record.score.toNat, record.reason] := by
  rw [line, fields_intercalate (by simp) (h.notMem_field (by decide)),
    sanitizeReason_clean h.reason h.length]

theorem Clean.newline_notMem_line {record : BanRecord} (h : Clean record) :
    newline ∉ line record :=
  notMem_intercalate (by decide) (h.notMem_field (by decide))

theorem line_ne_nil {record : BanRecord} : line record ≠ [] := intercalate_ne_nil

theorem loadLine_line {s : BanStore} {record : BanRecord} (h : Clean record) :
    (loadLine (line record)).run s = .ok () { s with records := s.records ++ [record] } := by
  unfold loadLine
  rw [h.fields_line]
  simp only [run_bind_ok, lift_run_ok, parseNumberIn, orThrow_ok, throwIf_run_ok,
    unsigned_decimal record.score.toNat_lt, Option.map_some,
    signed_toText record.bannedUntil.le_toInt record.bannedUntil.toInt_lt,
    Option.some.injEq, UInt32.ofNat_toNat, Int64.ofInt_toInt]
  exact ⟨_, s, ⟨rfl, rfl⟩, _, s, ⟨rfl, rfl⟩, (), s, ⟨not_not.2 h.host, rfl⟩, s, s, rfl, rfl⟩

theorem load_text {records old : List BanRecord} {clock : Int64} (h : ∀ r ∈ records, Clean r) :
    (load clock).run ⟨old, some (text records)⟩ =
      .ok () ⟨records.filter fun r => ¬ r.bannedUntil ≤ clock, some (text records)⟩ := by
  have hlines : lines (text records) = banlistMagic :: records.map line :=
    lines_records (by decide) fun r hr => (h r hr).newline_notMem_line
  have hread := forM_records (fun read : List BanRecord => BanStore.mk read (some (text records)))
    (fun _ _ => line_ne_nil) fun before r after (hsplit : records = before ++ r :: after) =>
      loadLine_line (s := ⟨before, some (text records)⟩) (h r (by simp [hsplit]))
  have hclear : (setRecords [] : BanM Unit).run ⟨old, some (text records)⟩ =
      .ok () ⟨[], some (text records)⟩ := rfl
  unfold load
  rw [run_bind_of_ok hclear, run_bind_of_ok (show (get : BanM _).run _ = .ok _ _ from rfl)]
  simp only [hlines]
  rw [run_bind_of_ok (a := ()) (throwIf_run_ok.2 ⟨not_not.2 rfl, rfl⟩), run_bind_of_ok hread]
  rfl

/-! ## The store follows the history -/

/-- The records are bans of the history, and each ban of it that lasts beyond the last call has one
    that lasts as long. -/
structure Tracks (operations : List Operation) (records : List BanRecord) : Prop where
  clean : ∀ r ∈ records, Clean r
  sound : ∀ r ∈ records, BansUntil operations r.host r.bannedUntil.toInt
  complete : ∀ host expiry, BansUntil operations host expiry →
    (∀ operation ∈ operations, operation.clock.toInt < expiry) →
    ∃ r ∈ records, r.host = host ∧ expiry ≤ r.bannedUntil.toInt

variable {operations : List Operation} {operation : Operation} {records : List BanRecord}

theorem Tracks.nil : Tracks [] [] := by
  refine ⟨by simp, by simp, ?_⟩
  rintro host expiry ⟨before, clock, duration, score, reason, after, heq, -⟩
  simp at heq

/-- A call that bans nobody and is no `clear` leaves the history as it is. -/
theorem bansUntil_skip (hban : ∀ clock host duration score reason,
      operation = .ban clock host duration score reason → ¬ (validHost host ∧ 0 < duration))
    (hclear : ∀ t, operation ≠ .clear t) (host : Str) (expiry : ℤ) :
    BansUntil (operations ++ [operation]) host expiry ↔ BansUntil operations host expiry := by
  rw [bansUntil_append]
  constructor
  · rintro (⟨clock, duration, score, reason, heq, hvalid, hduration, -⟩ | ⟨h, -⟩)
    · exact absurd ⟨hvalid, hduration⟩ (hban _ _ _ _ _ heq)
    · exact h
  · exact fun h => .inr ⟨h, hclear⟩

theorem Tracks.skip (h : Tracks operations records)
    (hlast : ∀ host expiry, BansUntil (operations ++ [operation]) host expiry ↔
      BansUntil operations host expiry) : Tracks (operations ++ [operation]) records where
  clean := h.clean
  sound r hr := (hlast _ _).2 (h.sound r hr)
  complete host expiry hbans hlate :=
    h.complete host expiry ((hlast _ _).1 hbans) fun x hx => hlate x (List.mem_append_left _ hx)

/-- Records that have expired may be dropped. -/
theorem Tracks.prune (h : Tracks (operations ++ [operation]) records) :
    Tracks (operations ++ [operation])
      (records.filter fun r => ¬ r.bannedUntil ≤ operation.clock) where
  clean r hr := h.clean r (List.mem_of_mem_filter hr)
  sound r hr := h.sound r (List.mem_of_mem_filter hr)
  complete host expiry hbans hlate := by
    have hexpiry := hlate operation (by simp)
    obtain ⟨r, hr, hhost, hle⟩ := h.complete host expiry hbans hlate
    refine ⟨r, List.mem_filter.2 ⟨hr, ?_⟩, hhost, hle⟩
    have hnot : ¬ r.bannedUntil ≤ operation.clock := by
      rw [Int64.le_iff_toInt_le]
      omega
    simpa using hnot

theorem toInt_expiry {clock duration : Int64} (hduration : 0 < duration)
    (hbound : clock.toInt + duration.toInt < 2 ^ 63) :
    (clock + duration).toInt = clock.toInt + duration.toInt := by
  have hpos : 0 < duration.toInt := Int64.lt_iff_toInt_lt.1 hduration
  have hlow := clock.le_toInt
  rw [Int64.toInt_add]
  exact Int.bmod_eq_of_le (by omega) (by omega)

/-- A record of the host of a ban, with the later of the two expiries. -/
def merged (expiry : Int64) (score : UInt32) (reason : Str) (stored : BanRecord) : BanRecord :=
  { stored with
    bannedUntil := max stored.bannedUntil expiry, score := max stored.score score
    reason := sanitizeReason reason }

theorem ban_run (s : BanStore) (clock : Int64) (score : UInt32) (reason : Str) {host : Str}
    {duration : Int64} (hhost : validHost host) (hduration : 0 < duration) :
    ∃ records, records = upsertFirst (·.host = host) (merged (clock + duration) score reason)
        ⟨host, clock + duration, score, sanitizeReason reason⟩ s.records ∧
      (ban clock host duration score reason).run s = .ok () ⟨records, some (text records)⟩ := by
  refine ⟨_, rfl, ?_⟩
  have hvalid : ¬ (¬ validHost host ∨ duration ≤ 0) := by
    rw [not_or, not_not, Int64.not_le]
    exact ⟨hhost, hduration⟩
  unfold ban upsertFirst
  rw [if_neg hvalid, run_bind_of_ok (show (get : BanM _).run s = .ok s s from rfl)]
  change (match modifyFirst (·.host = host) (merged (clock + duration) score reason) s.records with
    | none => do
      setRecords (s.records ++ [⟨host, clock + duration, score, sanitizeReason reason⟩])
      save
    | some updated => do
      setRecords updated
      save : BanM Unit).run s = _
  cases modifyFirst (·.host = host) (merged (clock + duration) score reason) s.records <;> rfl

theorem bansUntil_ban {clock : Int64} {host host' : Str} {duration : Int64} {score : UInt32}
    {reason : Str} {expiry : ℤ} (hhost : validHost host) (hduration : 0 < duration) :
    BansUntil (operations ++ [.ban clock host duration score reason]) host' expiry ↔
      host' = host ∧ expiry = clock.toInt + duration.toInt ∨ BansUntil operations host' expiry := by
  rw [bansUntil_append]
  constructor
  · rintro (⟨_, _, _, _, heq, -, -, h⟩ | ⟨h, -⟩)
    · cases heq
      exact .inl ⟨rfl, h⟩
    · exact .inr h
  · rintro (⟨rfl, h⟩ | h)
    · exact .inl ⟨clock, duration, score, reason, rfl, hhost, hduration, h⟩
    · exact .inr ⟨h, fun _ => nofun⟩

theorem Clean.merged {record : BanRecord} (h : Clean record) (expiry : Int64) (score : UInt32)
    (reason : Str) : Clean (merged expiry score reason record) :=
  ⟨h.host, notMem_sanitizeReason reason, length_sanitizeReason reason⟩

theorem Tracks.ban {clock : Int64} {host : Str} {duration : Int64} {score : UInt32} {reason : Str}
    (h : Tracks operations records) (hhost : validHost host) (hduration : 0 < duration)
    (hbound : clock.toInt + duration.toInt < 2 ^ 63) :
    Tracks (operations ++ [.ban clock host duration score reason])
      (upsertFirst (·.host = host) (merged (clock + duration) score reason)
        ⟨host, clock + duration, score, sanitizeReason reason⟩ records) := by
  have hexpiry := toInt_expiry hduration hbound
  obtain ⟨before, r, after, rfl, hfound, hupsert⟩ | ⟨-, hupsert⟩ :=
    upsertFirst_cases (·.host = host) (merged (clock + duration) score reason)
      ⟨host, clock + duration, score, sanitizeReason reason⟩ records
  · obtain rfl : r.host = host := of_decide_eq_true hfound
    have huntil : (merged (clock + duration) score reason r).bannedUntil.toInt =
        max r.bannedUntil.toInt (clock.toInt + duration.toInt) := by
      rw [← hexpiry]
      exact toInt_max _ _
    have hold : ∀ x ∈ before ++ after, x ∈ before ++ r :: after := by
      simp only [List.mem_append, List.mem_cons]
      tauto
    have hmem : ∀ x, x ∈ before ++ merged (clock + duration) score reason r :: after ↔
        x = merged (clock + duration) score reason r ∨ x ∈ before ++ after := by
      simp only [List.mem_append, List.mem_cons]
      tauto
    rw [hupsert]
    refine ⟨fun x hx => ?_, fun x hx => ?_, fun host' expiry hbans hlate => ?_⟩
    · obtain rfl | hx := (hmem x).1 hx
      · exact (h.clean r (by simp)).merged _ _ _
      · exact h.clean x (hold x hx)
    · rw [bansUntil_ban hhost hduration]
      obtain rfl | hx := (hmem x).1 hx
      · rw [huntil]
        obtain hmax | hmax := max_choice r.bannedUntil.toInt (clock.toInt + duration.toInt)
        · rw [hmax]
          exact .inr (h.sound r (by simp))
        · exact .inl ⟨rfl, hmax⟩
      · exact .inr (h.sound x (hold x hx))
    · obtain ⟨rfl, rfl⟩ | hbans := (bansUntil_ban hhost hduration).1 hbans
      · refine ⟨_, (hmem _).2 (.inl rfl), rfl, ?_⟩
        rw [huntil]
        exact le_max_right _ _
      · obtain ⟨x, hx, rfl, hle⟩ := h.complete host' expiry hbans
          fun op hop => hlate op (List.mem_append_left _ hop)
        by_cases hxr : x = r
        · obtain rfl := hxr
          refine ⟨_, (hmem _).2 (.inl rfl), rfl, ?_⟩
          rw [huntil]
          exact le_trans hle (le_max_left _ _)
        · refine ⟨x, (hmem x).2 (.inr ?_), rfl, hle⟩
          simp only [List.mem_append, List.mem_cons, hxr, false_or] at hx ⊢
          exact hx
  · rw [hupsert]
    refine ⟨fun x hx => ?_, fun x hx => ?_, fun host' expiry hbans hlate => ?_⟩
    · obtain hx | hx := List.mem_append.1 hx
      · exact h.clean x hx
      · obtain rfl := List.mem_singleton.1 hx
        exact ⟨hhost, notMem_sanitizeReason reason, length_sanitizeReason reason⟩
    · rw [bansUntil_ban hhost hduration]
      obtain hx | hx := List.mem_append.1 hx
      · exact .inr (h.sound x hx)
      · obtain rfl := List.mem_singleton.1 hx
        exact .inl ⟨rfl, hexpiry⟩
    · obtain ⟨rfl, rfl⟩ | hbans := (bansUntil_ban hhost hduration).1 hbans
      · exact ⟨⟨host', clock + duration, score, sanitizeReason reason⟩, by simp, rfl, hexpiry.ge⟩
      · obtain ⟨x, hx, rfl, hle⟩ := h.complete host' expiry hbans
          fun op hop => hlate op (List.mem_append_left _ hop)
        exact ⟨x, List.mem_append_left _ hx, rfl, hle⟩

/-- The step lemma. -/
theorem Tracks.apply {s : BanStore} (h : Tracks operations s.records)
    (hbound : ∀ clock host duration score reason, operation = .ban clock host duration score reason →
      0 < duration → clock.toInt + duration.toInt < 2 ^ 63) :
    Tracks (operations ++ [operation]) (operation.apply s).records := by
  cases operation with
  | ban clock host duration score reason =>
    by_cases hvalid : validHost host ∧ 0 < duration
    · obtain ⟨records, rfl, hrun⟩ := ban_run s clock score reason hvalid.1 hvalid.2
      simp only [Operation.apply, Operation.exec, hrun]
      exact h.ban hvalid.1 hvalid.2 (hbound _ _ _ _ _ rfl hvalid.2)
    · have hskip : ¬ validHost host ∨ duration ≤ 0 := by
        rw [← Int64.not_lt]
        tauto
      have hsame : (Operation.ban clock host duration score reason).apply s = s := by
        simp only [Operation.apply, Operation.exec, BanStore.ban, if_pos hskip]
        rfl
      rw [hsame]
      refine h.skip (bansUntil_skip ?_ fun _ => nofun)
      rintro _ _ _ _ _ ⟨⟩
      exact hvalid
  | pruneExpired clock =>
    exact (h.skip (bansUntil_skip (by rintro _ _ _ _ _ ⟨⟩) (by rintro _ ⟨⟩))).prune
  | reload clock =>
    have hreload : (Operation.reload clock).apply s =
        ⟨s.records.filter fun r => ¬ r.bannedUntil ≤ clock, some (text s.records)⟩ := by
      have hsave : save.run s = .ok () ⟨s.records, some (text s.records)⟩ := rfl
      simp only [Operation.apply, Operation.exec]
      rw [run_bind_of_ok hsave, load_text h.clean]
    rw [hreload]
    exact (h.skip (bansUntil_skip (by rintro _ _ _ _ _ ⟨⟩) (by rintro _ ⟨⟩))).prune
  | clear clock =>
    have hcleared : ((Operation.clear clock).apply s).records = [] := rfl
    rw [hcleared]
    refine ⟨by simp, by simp, fun host expiry hbans _ => ?_⟩
    obtain ⟨_, _, _, _, heq, -⟩ | ⟨-, hclear⟩ := bansUntil_append.1 hbans
    · cases heq
    · exact absurd rfl (hclear clock)

theorem afterCalls_append_singleton (operations : List Operation) (operation : Operation) :
    afterCalls (operations ++ [operation]) = operation.apply (afterCalls operations) := by
  rw [afterCalls, List.foldl_append]
  rfl

/-- The run lemma. -/
theorem tracks_afterCalls (hbound : ∀ clock host duration score reason,
      .ban clock host duration score reason ∈ operations → 0 < duration →
      clock.toInt + duration.toInt < 2 ^ 63) : Tracks operations (afterCalls operations).records := by
  induction operations using List.reverseRecOn with
  | nil => exact Tracks.nil
  | append_singleton operations operation ih =>
    rw [afterCalls_append_singleton]
    have hbefore := ih fun _ _ _ _ _ hop => hbound _ _ _ _ _ (List.mem_append_left _ hop)
    refine hbefore.apply ?_
    rintro clock host duration score reason rfl
    exact hbound clock host duration score reason (by simp)

theorem Timed.clock_le (h : Timed operations) {t : Int64}
    (hlast : ∀ operation ∈ operations.getLast?, operation.clock ≤ t) :
    ∀ operation ∈ operations, operation.clock ≤ t := by
  intro operation hop
  cases operations using List.reverseRecOn with
  | nil => cases hop
  | append_singleton operations last =>
    have hle : last.clock ≤ t := hlast last (by simp)
    have hordered := h.ordered
    rw [List.map_append, List.map_singleton, List.pairwise_append] at hordered
    obtain hop | hop := List.mem_append.1 hop
    · exact Int64.le_trans (hordered.2.2 _ (List.mem_map_of_mem hop) _ (by simp)) hle
    · obtain rfl := List.mem_singleton.1 hop
      exact hle

/-- The store is the map of the history, at every time from the last call on; the argument 0 of
    `is_banned` stands for the time of the question. -/
theorem isBanned_iff {host : Str} {clock now : Int64} (h : Timed operations)
    (hlast : ∀ operation ∈ operations.getLast?, operation.clock ≤ effective clock now) :
    isBanned clock host now (afterCalls operations) ↔
      ∃ expiry, BansUntil operations host expiry ∧ (effective clock now).toInt < expiry := by
  have htracks := tracks_afterCalls h.bounded
  constructor
  · intro hbanned
    obtain ⟨r, hr, hmatch⟩ := List.any_eq_true.1 hbanned
    obtain ⟨rfl, huntil⟩ := of_decide_eq_true hmatch
    exact ⟨_, htracks.sound r hr, Int64.lt_iff_toInt_lt.1 huntil⟩
  · rintro ⟨expiry, hbans, hlt⟩
    have hlate : ∀ operation ∈ operations, operation.clock.toInt < expiry := fun operation hop =>
      lt_of_le_of_lt (Int64.le_iff_toInt_le.1 (h.clock_le hlast operation hop)) hlt
    obtain ⟨r, hr, rfl, hle⟩ := htracks.complete host expiry hbans hlate
    refine List.any_eq_true.2 ⟨r, hr, decide_eq_true ⟨rfl, ?_⟩⟩
    exact Int64.lt_iff_toInt_lt.2 (by omega)

theorem isBanned_iff_hour :
    isBanned 2000 (str "198.51.100.42") 0
        (afterCalls [.ban 1000 (str "198.51.100.42") 3600 125 (str "a\tb"), .reload 1500]) ↔
      ∃ expiry, BansUntil [.ban 1000 (str "198.51.100.42") 3600 125 (str "a\tb"), .reload 1500]
        (str "198.51.100.42") expiry ∧ (effective 2000 0).toInt < expiry := by
  refine isBanned_iff ⟨by decide, ?_⟩ (by rintro _ ⟨⟩; decide)
  intro clock host duration score reason hop _
  simp only [List.mem_cons, List.not_mem_nil, or_false, reduceCtorEq, Operation.ban.injEq] at hop
  obtain ⟨rfl, -, rfl, -, -⟩ := hop
  decide

/-- The time 0, asked for while the clock stands before it: `is_banned` answers for the time of the
    clock, when the ban is in force, and not for the time 0, when it has ended. -/
theorem is_banned_zero :
    isBanned (-5) (str "a") 0 (afterCalls [.ban (-10) (str "a") 8 1 []]) ∧
    ¬ ∃ expiry, BansUntil [.ban (-10) (str "a") 8 1 []] (str "a") expiry ∧ 0 < expiry := by
  constructor
  · decide +kernel
  · rintro ⟨expiry, hbans, hpos⟩
    rw [← List.nil_append [Operation.ban (-10) (str "a") 8 1 []],
      bansUntil_ban (by decide +kernel) (by decide)] at hbans
    obtain ⟨-, rfl⟩ | ⟨before, _, _, _, _, after, heq, -⟩ := hbans
    · exact absurd hpos (by decide)
    · simp at heq

end BanStore

end BinaryCoin
