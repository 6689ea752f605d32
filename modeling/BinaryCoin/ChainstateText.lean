/-
  BinaryCoin — storage.cpp: the text files of a chainstate generation.

  Three formats by lines: the index of the active chain, the snapshot of the
  unspent outputs, and the manifest that names both.  Each is read as what it
  was written for.
-/
import BinaryCoin.BlockRecord
import BinaryCoin.FromChars

namespace BinaryCoin

open Cursor Std Text

/-! ## The records -/

structure IndexEntry where
  height : UInt64
  offset : UInt64
  payloadSize : UInt64
  hash : Str
  deriving DecidableEq

structure Manifest where
  generation : UInt64
  height : UInt64
  bestblock : Str
  indexFile : Str
  indexSha256 : Str
  utxoFile : Str
  utxoSha256 : Str
  blockFileSize : UInt64
  deriving DecidableEq

def manifestMagic : Str := str "BINARYCOIN_CHAINSTATE_MANIFEST_V1"

def indexMagic : Str := str "BINARYCOIN_BLOCK_INDEX_V1"

def utxoMagic : Str := str "BINARYCOIN_UTXO_SNAPSHOT_V1"

/-- A `getline` that must find a line. -/
def getline (what : String) : List Str → Except Exn (Str × List Str)
  | [] => .error (runtimeError what)
  | line :: rest => .ok (line, rest)

/-! ## The index -/

/-- A line of the index. -/
def IndexEntry.line (entry : IndexEntry) : Str :=
  [9].intercalate [decimal entry.height.toNat, decimal entry.offset.toNat,
    decimal entry.payloadSize.toNat, entry.hash]

def makeIndexText (entries : List IndexEntry) : Str :=
  unlines (indexMagic :: entries.map IndexEntry.line)

/-- The body of the loop of `parse_index_text`, on a line that is not empty. -/
def parseIndexLine (entries : List IndexEntry) (line : Str) : Except Exn (List IndexEntry) := do
  match fields line 9 with
  | [height, offset, payloadSize, hash] =>
    let height ← parseU64 "Invalid block-index height" height
    let offset ← parseU64 "Invalid block-index offset" offset
    let payloadSize ← parseU64 "Invalid block-index payload size" payloadSize
    throwIf (payloadSize.toNat > maxBlockRecordSize)
      (runtimeError "Indexed block payload exceeds limit")
    throwIf (height.toNat ≠ entries.length) (runtimeError "Block index is not contiguous")
    return entries ++ [⟨height, offset, payloadSize, hash⟩]
  | _ => throw (runtimeError "Malformed block-index record")

def parseIndexText (text : Str) : Except Exn (List IndexEntry) := do
  let (magic, records) ← getline "Invalid block-index header" (lines text)
  throwIf (magic ≠ indexMagic) (runtimeError "Invalid block-index header")
  let entries ← (records.filter (· ≠ [])).foldlM parseIndexLine []
  throwIf (entries = []) (runtimeError "Block index contains no genesis record")
  return entries

/-! ## The snapshot of the unspent outputs -/

/-- A line of the snapshot. -/
def utxoLine (entry : OutPoint × Coin) : Str :=
  [9].intercalate [entry.1.txid, decimal entry.1.index.toNat, toText entry.2.output.value,
    decimal entry.2.height.toNat, if entry.2.coinbase then str "1" else str "0",
    bytesToHex entry.2.output.scriptPubkey]

def makeUtxoText (utxos : UtxoSet) (height : UInt64) (bestblock : Str) : Str :=
  unlines (utxoMagic :: (str "height=" ++ decimal height.toNat) :: (str "bestblock=" ++ bestblock) ::
    utxos.toList.map utxoLine)

/-- The body of the loop of `parse_utxo_text`, on a line that is not empty. -/
def parseUtxoLine (utxos : UtxoSet) (line : Str) : Except Exn UtxoSet := do
  match fields line 9 with
  | [txid, index, value, height, coinbase, script] =>
    let index ← parseU32 10 "Invalid UTXO output index" index
    let value ← parseI64 "Invalid UTXO value" value
    let script ← hexToBytes script
    let height ← parseU64 "Invalid UTXO height" height
    throwIf (¬ moneyRange value) (runtimeError "UTXO value outside money range")
    throwIf (coinbase ≠ str "0" ∧ coinbase ≠ str "1") (runtimeError "Invalid UTXO coinbase flag")
    throwIf (utxos.contains ⟨txid, index⟩) (runtimeError "Duplicate UTXO snapshot outpoint")
    return utxos.insert ⟨txid, index⟩ ⟨⟨value, script⟩, height, coinbase = str "1"⟩
  | _ => throw (runtimeError "Malformed UTXO snapshot record")

def parseUtxoText (text : Str) (expectedHeight : UInt64) (expectedBestblock : Str) :
    Except Exn UtxoSet := do
  let (magic, rest) ← getline "Invalid UTXO snapshot header" (lines text)
  throwIf (magic ≠ utxoMagic) (runtimeError "Invalid UTXO snapshot header")
  let (line, rest) ← getline "UTXO snapshot height missing" rest
  throwIf (¬ str "height=" <+: line) (runtimeError "UTXO snapshot height missing")
  let height ← parseU64 "Invalid UTXO snapshot height" (line.drop 7)
  let (line, rest) ← getline "UTXO best block missing" rest
  throwIf (¬ str "bestblock=" <+: line) (runtimeError "UTXO best block missing")
  throwIf (height ≠ expectedHeight ∨ line.drop 10 ≠ expectedBestblock)
    (runtimeError "UTXO snapshot does not match committed active chain")
  (rest.filter (· ≠ [])).foldlM parseUtxoLine ∅

/-! ## The manifest -/

/-- The fields of the manifest, by name. -/
def Manifest.fields (manifest : Manifest) : List (String × Str) :=
  [("generation", decimal manifest.generation.toNat), ("height", decimal manifest.height.toNat),
    ("bestblock", manifest.bestblock), ("index_file", manifest.indexFile),
    ("index_sha256", manifest.indexSha256), ("utxo_file", manifest.utxoFile),
    ("utxo_sha256", manifest.utxoSha256), ("block_file_size", decimal manifest.blockFileSize.toNat)]

/-- A line of the manifest. -/
def manifestLine (field : String × Str) : Str := str field.1 ++ 61 :: field.2

def makeManifestText (manifest : Manifest) : Str :=
  unlines (manifestMagic :: manifest.fields.map manifestLine)

/-- A line of the manifest, cut at the first `=`. -/
def parseManifestLine (line : Str) : Except Exn (Str × Str) := do
  throwIf (61 ∉ line) (runtimeError "Malformed chainstate manifest field")
  return (line.takeWhile (· ≠ 61), (line.dropWhile (· ≠ 61)).drop 1)

/-- The `get` of `parse_manifest_text`: of equal names, `emplace` keeps the first. -/
def manifestField (fields : List (Str × Str)) (name : String) : Except Exn Str :=
  orThrow (fields.lookup (str name)) (runtimeError ("Missing chainstate manifest field: " ++ name))

def parseManifestText (text : Str) : Except Exn Manifest := do
  let (magic, records) ← getline "Invalid chainstate manifest header" (lines text)
  throwIf (magic ≠ manifestMagic) (runtimeError "Invalid chainstate manifest header")
  let fields ← (records.filter (· ≠ [])).mapM parseManifestLine
  let get := manifestField fields
  let generation ← parseU64 "Invalid manifest generation" (← get "generation")
  let height ← parseU64 "Invalid manifest height" (← get "height")
  let bestblock ← get "bestblock"
  let indexFile ← get "index_file"
  let indexSha256 ← get "index_sha256"
  let utxoFile ← get "utxo_file"
  let utxoSha256 ← get "utxo_sha256"
  let blockFileSize ← parseU64 "Invalid manifest block file size" (← get "block_file_size")
  return ⟨generation, height, bestblock, indexFile, indexSha256, utxoFile, utxoSha256, blockFileSize⟩

/-! ## What stands in a field -/

/-- No blank, tab or line end. -/
def Visible (text : Str) : Prop := ∀ c ∈ text, 32 < c

/-- A digit of either case. -/
def IsHexDigit (c : UInt8) : Prop := IsLowerHex c ∨ (65 ≤ c ∧ c ≤ 70)

/-- A digest in hexadecimal. -/
structure HexDigest (text : Str) : Prop where
  length : text.length = 64
  digit : ∀ c ∈ text, IsHexDigit c

theorem IsDisplayHex.hexDigest {text : Str} (h : IsDisplayHex text) : HexDigest text where
  length := by
    obtain ⟨hash, rfl⟩ := h
    exact length_hashToDisplayHex hash
  digit _ hc := .inl (h.lower hc)

section
variable {text : Str} {c : UInt8}

theorem Visible.notMem (h : Visible text) (hc : c ≤ 32) : c ∉ text := by
  intro hmem
  exact UInt8.not_lt.2 hc (h c hmem)

theorem visible_decimal (n : ℕ) : Visible (decimal n) := by
  intro c hc
  exact UInt8.lt_of_lt_of_le (by decide) (decimal_isDigit n c hc).1

theorem visible_toText (z : ℤ) : Visible (toText z) := by
  unfold toText
  split_ifs
  · intro c hc
    rcases List.mem_cons.1 hc with rfl | hc
    · decide
    · exact visible_decimal _ c hc
  · exact visible_decimal _

theorem visible_bytesToHex (bytes : Bytes) : Visible (bytesToHex bytes) := by
  intro c hc
  rcases bytesToHex_lower hc with hdigit | hlower
  · exact UInt8.lt_of_lt_of_le (by decide) hdigit.1
  · exact UInt8.lt_of_lt_of_le (by decide) hlower.1

theorem HexDigest.visible (h : HexDigest text) : Visible text := by
  intro c hc
  rcases h.digit c hc with (hdigit | hlower) | hupper
  · exact UInt8.lt_of_lt_of_le (by decide) hdigit.1
  · exact UInt8.lt_of_lt_of_le (by decide) hlower.1
  · exact UInt8.lt_of_lt_of_le (by decide) hupper.1

/-- A line of such fields is read field by field. -/
theorem fields_visible {fs : List Str} (hne : fs ≠ []) (h : ∀ f ∈ fs, Visible f) :
    fields ([9].intercalate fs) 9 = fs ∧ newline ∉ [9].intercalate fs :=
  ⟨fields_intercalate hne fun f hf => (h f hf).notMem (by decide),
    notMem_intercalate (by decide) fun f hf => (h f hf).notMem (by decide)⟩

end

/-! ## Round trips -/

/-- The entries that are written: from height 0 on, one after another. -/
structure IndexOk (entries : List IndexEntry) : Prop where
  height : ∀ (i : ℕ) (h : i < entries.length), entries[i].height.toNat = i
  hash : ∀ entry ∈ entries, HexDigest entry.hash
  payloadSize : ∀ entry ∈ entries, entry.payloadSize.toNat ≤ maxBlockRecordSize

theorem IndexEntry.fields_line {entry : IndexEntry} (h : HexDigest entry.hash) :
    fields entry.line 9 = [decimal entry.height.toNat, decimal entry.offset.toNat,
      decimal entry.payloadSize.toNat, entry.hash] ∧ newline ∉ entry.line := by
  refine fields_visible (List.cons_ne_nil _ _) ?_
  intro f hf
  simp only [List.mem_cons, List.not_mem_nil, or_false] at hf
  rcases hf with rfl | rfl | rfl | rfl
  · exact visible_decimal _
  · exact visible_decimal _
  · exact visible_decimal _
  · exact h.visible

theorem IndexEntry.line_ne_nil {entry : IndexEntry} : entry.line ≠ [] := intercalate_ne_nil

/-- **The lines of the index**, one after another. -/
theorem foldlM_parseIndexLine {entries : List IndexEntry} (h : IndexOk entries) :
    (entries.map IndexEntry.line).foldlM parseIndexLine [] = .ok entries := by
  induction entries using List.reverseRecOn with
  | nil => rfl
  | append_singleton entries entry ih =>
    have hinit : IndexOk entries := by
      refine ⟨?_, fun e he => h.hash e (List.mem_append_left _ he),
        fun e he => h.payloadSize e (List.mem_append_left _ he)⟩
      intro i hi
      have hheight := h.height i (by rw [List.length_append]; omega)
      rwa [List.getElem_append_left hi] at hheight
    have hmem : entry ∈ entries ++ [entry] := by simp
    have hheight : entry.height.toNat = entries.length := by
      have hlast := h.height entries.length (by simp)
      simpa using hlast
    have hlast : parseIndexLine entries entry.line = .ok (entries ++ [entry]) := by
      unfold parseIndexLine
      rw [(IndexEntry.fields_line (h.hash entry hmem)).1]
      simp only [parseU64_decimal, except_bind_ok, throwIf_ok, except_pure_ok]
      exact ⟨_, rfl, _, rfl, _, rfl, (), Nat.not_lt.2 (h.payloadSize entry hmem), (),
        not_not.2 hheight, rfl⟩
    rw [List.map_append, List.foldlM_append]
    refine except_bind_ok.2 ⟨_, ih hinit, ?_⟩
    rw [List.map_singleton, List.foldlM_cons]
    exact except_bind_ok.2 ⟨_, hlast, rfl⟩

theorem parseIndexText_make {entries : List IndexEntry} (hne : entries ≠ []) (h : IndexOk entries) :
    parseIndexText (makeIndexText entries) = .ok entries := by
  have hlines : lines (makeIndexText entries) = indexMagic :: entries.map IndexEntry.line :=
    lines_records (by decide) fun entry hentry => (IndexEntry.fields_line (h.hash entry hentry)).2
  have hfilter : (entries.map IndexEntry.line).filter (· ≠ []) = entries.map IndexEntry.line :=
    filter_records fun _ _ => IndexEntry.line_ne_nil
  rw [parseIndexText, hlines]
  refine except_bind_ok.2 ⟨_, rfl, except_bind_ok.2 ⟨(), throwIf_ok.2 (not_not.2 rfl), ?_⟩⟩
  refine except_bind_ok.2 ⟨entries, ?_, except_bind_ok.2 ⟨(), throwIf_ok.2 hne, rfl⟩⟩
  rw [hfilter]
  exact foldlM_parseIndexLine h

/-- The coins that are written. -/
structure UtxoOk (utxos : UtxoSet) : Prop where
  txid : ∀ entry ∈ utxos.toList, HexDigest entry.1.txid
  value : ∀ entry ∈ utxos.toList, moneyRange entry.2.output.value

theorem fields_utxoLine {entry : OutPoint × Coin} (h : HexDigest entry.1.txid) :
    fields (utxoLine entry) 9 = [entry.1.txid, decimal entry.1.index.toNat,
      toText entry.2.output.value, decimal entry.2.height.toNat,
      if entry.2.coinbase then str "1" else str "0", bytesToHex entry.2.output.scriptPubkey] ∧
    newline ∉ utxoLine entry := by
  refine fields_visible (List.cons_ne_nil _ _) ?_
  intro f hf
  simp only [List.mem_cons, List.not_mem_nil, or_false] at hf
  rcases hf with rfl | rfl | rfl | rfl | rfl | rfl
  · exact h.visible
  · exact visible_decimal _
  · exact visible_toText _
  · exact visible_decimal _
  · have hone : str "1" = decimal 1 := rfl
    have hzero : str "0" = decimal 0 := rfl
    rw [hone, hzero]
    split_ifs
    · exact visible_decimal _
    · exact visible_decimal _
  · exact visible_bytesToHex _

theorem utxoLine_ne_nil {entry : OutPoint × Coin} : utxoLine entry ≠ [] := intercalate_ne_nil

/-- **A line of the snapshot** adds the coin that it was written for. -/
theorem parseUtxoLine_line {utxos : UtxoSet} {entry : OutPoint × Coin} (htxid : HexDigest entry.1.txid)
    (hvalue : moneyRange entry.2.output.value) (hnew : utxos[entry.1]? = none) :
    parseUtxoLine utxos (utxoLine entry) = .ok (utxos.insert entry.1 entry.2) := by
  obtain ⟨⟨txid, index⟩, ⟨⟨value, script⟩, height, coinbase⟩⟩ := entry
  have hrange : -2 ^ 63 ≤ value ∧ value < 2 ^ 63 := by
    have hmoney := of_decide_eq_true hvalue
    have hmax : maxMoney < 2 ^ 63 := by decide
    dsimp only at hmoney
    omega
  have hflag : (if coinbase then str "1" else str "0") = str "0" ∨
      (if coinbase then str "1" else str "0") = str "1" := by
    cases coinbase
    · exact .inl rfl
    · exact .inr rfl
  have hcoinbase : decide ((if coinbase then str "1" else str "0") = str "1") = coinbase := by
    cases coinbase <;> decide
  have hcontains : utxos.contains ⟨txid, index⟩ = false := by
    rw [ExtTreeMap.contains_eq_isSome_getElem?, hnew]
    rfl
  unfold parseUtxoLine
  rw [(fields_utxoLine htxid).1]
  simp only [parseU32_decimal, parseU64_decimal, parseI64, parsed, signed_toText hrange.1 hrange.2,
    hexToBytes_bytesToHex, except_bind_ok, orThrow_ok, throwIf_ok, except_pure_ok, hcoinbase]
  refine ⟨_, rfl, _, rfl, _, rfl, _, rfl, (), not_not.2 hvalue, (), ?_, (),
    ne_true_of_eq_false hcontains, rfl⟩
  rintro ⟨hzero, hone⟩
  exact hflag.elim hzero hone

theorem parseUtxoText_make {utxos : UtxoSet} (height : UInt64) {bestblock : Str} (h : UtxoOk utxos)
    (hbest : HexDigest bestblock) :
    parseUtxoText (makeUtxoText utxos height bestblock) height bestblock = .ok utxos := by
  have hlines : lines (makeUtxoText utxos height bestblock) = utxoMagic ::
      (str "height=" ++ decimal height.toNat) :: (str "bestblock=" ++ bestblock) ::
        utxos.toList.map utxoLine := by
    refine lines_unlines fun l hl => ?_
    simp only [List.mem_cons] at hl
    rcases hl with rfl | rfl | rfl | hl
    · decide
    · rw [List.mem_append, not_or]
      exact ⟨by decide, (visible_decimal _).notMem (by decide)⟩
    · rw [List.mem_append, not_or]
      exact ⟨by decide, hbest.visible.notMem (by decide)⟩
    · obtain ⟨entry, hentry, rfl⟩ := List.mem_map.1 hl
      exact (fields_utxoLine (h.txid entry hentry)).2
  have hfilter : (utxos.toList.map utxoLine).filter (· ≠ []) = utxos.toList.map utxoLine :=
    filter_records fun _ _ => utxoLine_ne_nil
  have hheight : parseU64 "Invalid UTXO snapshot height"
      ((str "height=" ++ decimal height.toNat).drop 7) = .ok height := by
    rw [List.drop_left' (by decide), parseU64_decimal]
  have hbestblock : (str "bestblock=" ++ bestblock).drop 10 = bestblock := List.drop_left' (by decide)
  rw [parseUtxoText, hlines]
  simp only [getline, except_bind_ok, throwIf_ok, not_not]
  refine ⟨_, rfl, (), rfl, _, rfl, (), List.prefix_append _ _, _, hheight, _, rfl, (),
    List.prefix_append _ _, (), ?_, ?_⟩
  · rintro (hne | hne)
    · exact hne rfl
    · exact hne hbestblock
  · rw [hfilter]
    exact OrdMap.foldlM_insert_toList fun acc entry hentry hnew =>
      parseUtxoLine_line (h.txid entry hentry) (h.value entry hentry) hnew

/-! ### The manifest -/

/-- The texts of a manifest. -/
def Manifest.texts (manifest : Manifest) : List Str :=
  [manifest.bestblock, manifest.indexFile, manifest.indexSha256, manifest.utxoFile,
    manifest.utxoSha256]

section
variable {manifest : Manifest} {field : String × Str}

/-- The names of the fields. -/
def manifestNames : List String := ["generation", "height", "bestblock", "index_file",
  "index_sha256", "utxo_file", "utxo_sha256", "block_file_size"]

theorem manifest_names : ∀ name ∈ manifestNames, 61 ∉ str name ∧ newline ∉ str name := by decide

theorem manifest_names_nodup : (manifestNames.map str).Nodup := by decide

theorem manifestNames_eq (manifest : Manifest) : manifestNames = manifest.fields.map Prod.fst := rfl

theorem Manifest.field_name (h : field ∈ manifest.fields) : 61 ∉ str field.1 ∧ newline ∉ str field.1 :=
  manifest_names field.1 (List.mem_map_of_mem (f := Prod.fst) h)

theorem Manifest.field_value (htexts : ∀ text ∈ manifest.texts, newline ∉ text)
    (h : field ∈ manifest.fields) : newline ∉ field.2 := by
  have hnumber : ∀ n, newline ∉ decimal n := fun n => (visible_decimal n).notMem (by decide)
  simp only [Manifest.fields, List.mem_cons, List.not_mem_nil, or_false] at h
  rcases h with rfl | rfl | rfl | rfl | rfl | rfl | rfl | rfl
  · exact hnumber _
  · exact hnumber _
  · exact htexts _ (by simp [Manifest.texts])
  · exact htexts _ (by simp [Manifest.texts])
  · exact htexts _ (by simp [Manifest.texts])
  · exact htexts _ (by simp [Manifest.texts])
  · exact htexts _ (by simp [Manifest.texts])
  · exact hnumber _

/-- **A line of the manifest** is cut where the name ends. -/
theorem parseManifestLine_line (h : 61 ∉ str field.1) :
    parseManifestLine (manifestLine field) = .ok (str field.1, field.2) := by
  have hname : ∀ c ∈ str field.1, decide (c ≠ 61) = true := by
    intro c hc
    exact decide_eq_true fun heq => h (heq ▸ hc)
  refine except_bind_ok.2 ⟨(), throwIf_ok.2 ?_, ?_⟩
  · rw [not_not, manifestLine]
    exact List.mem_append_right _ List.mem_cons_self
  · rw [manifestLine, List.takeWhile_append_of_pos hname, List.dropWhile_append_of_pos hname]
    simp [pure, Except.pure]

theorem mapM_parseManifestLine {fields : List (String × Str)} (h : ∀ field ∈ fields, 61 ∉ str field.1) :
    (fields.map manifestLine).mapM parseManifestLine =
      .ok (fields.map fun field => (str field.1, field.2)) := by
  induction fields with
  | nil => rfl
  | cons field fields ih =>
    obtain ⟨hfield, hfields⟩ := List.forall_mem_cons.1 h
    rw [List.map_cons, List.mapM_cons]
    exact except_bind_ok.2 ⟨_, parseManifestLine_line hfield,
      except_bind_ok.2 ⟨_, ih hfields, rfl⟩⟩

theorem lookup_of_mem {fields : List (Str × Str)} {name value : Str}
    (hnodup : (fields.map Prod.fst).Nodup) (h : (name, value) ∈ fields) :
    fields.lookup name = some value := by
  induction fields with
  | nil => cases h
  | cons field fields ih =>
    rw [List.map_cons, List.nodup_cons] at hnodup
    rcases List.mem_cons.1 h with rfl | h
    · exact List.lookup_cons_self
    · have hne : (name == field.1) = false :=
        beq_false_of_ne fun heq => hnodup.1 (heq ▸ List.mem_map_of_mem (f := Prod.fst) h)
      rw [List.lookup_cons, hne]
      exact ih hnodup.2 h

/-- A field that was written is found under its name. -/
theorem Manifest.field_found (h : field ∈ manifest.fields) :
    manifestField (manifest.fields.map fun field => (str field.1, field.2)) field.1 = .ok field.2 := by
  have hnodup : ((manifest.fields.map fun field => (str field.1, field.2)).map Prod.fst).Nodup := by
    have hnames := manifest_names_nodup
    rw [manifestNames_eq manifest, List.map_map] at hnames
    rw [List.map_map]
    exact hnames
  have hmem : (str field.1, field.2) ∈ manifest.fields.map fun field => (str field.1, field.2) :=
    List.mem_map_of_mem h
  rw [manifestField, lookup_of_mem hnodup hmem]
  rfl

theorem manifestLine_ne_nil : manifestLine field ≠ [] := by
  simp [manifestLine]

theorem parseManifestText_make (h : ∀ text ∈ manifest.texts, newline ∉ text) :
    parseManifestText (makeManifestText manifest) = .ok manifest := by
  have hlines : lines (makeManifestText manifest) =
      manifestMagic :: manifest.fields.map manifestLine := by
    refine lines_records (by decide) fun field hfield => ?_
    rw [manifestLine, List.mem_append, List.mem_cons, not_or, not_or]
    exact ⟨(Manifest.field_name hfield).2, by decide, Manifest.field_value h hfield⟩
  have hfilter : (manifest.fields.map manifestLine).filter (· ≠ []) =
      manifest.fields.map manifestLine := filter_records fun _ _ => manifestLine_ne_nil
  rw [parseManifestText, hlines]
  refine except_bind_ok.2 ⟨_, rfl, except_bind_ok.2 ⟨(), throwIf_ok.2 (not_not.2 rfl), ?_⟩⟩
  rw [hfilter]
  refine except_bind_ok.2 ⟨_, mapM_parseManifestLine fun field hfield =>
    (Manifest.field_name hfield).1, ?_⟩
  have hfound : ∀ field ∈ manifest.fields, manifestField
      (manifest.fields.map fun field => (str field.1, field.2)) field.1 = .ok field.2 :=
    fun field hfield => Manifest.field_found hfield
  rw [Manifest.fields] at hfound ⊢
  simp only [List.forall_mem_cons] at hfound
  obtain ⟨hgeneration, hheight, hbestblock, hindexFile, hindexSha256, hutxoFile, hutxoSha256,
    hblockFileSize, -⟩ := hfound
  simp only [except_bind_ok, except_pure_ok]
  exact ⟨_, hgeneration, _, parseU64_decimal _ _, _, hheight, _, parseU64_decimal _ _, _, hbestblock,
    _, hindexFile, _, hindexSha256, _, hutxoFile, _, hutxoSha256, _, hblockFileSize, _,
    parseU64_decimal _ _, rfl⟩

end

/-- **The text files of the chainstate** give back what was written. -/
theorem chainstate_texts_round_trip :
    (∀ (utxos : UtxoSet) (height : UInt64) (bestblock : Str), UtxoOk utxos → HexDigest bestblock →
      parseUtxoText (makeUtxoText utxos height bestblock) height bestblock = .ok utxos) ∧
    (∀ entries : List IndexEntry, entries ≠ [] → IndexOk entries →
      parseIndexText (makeIndexText entries) = .ok entries) ∧
    ∀ manifest : Manifest, (∀ text ∈ manifest.texts, newline ∉ text) →
      parseManifestText (makeManifestText manifest) = .ok manifest :=
  ⟨fun _ height _ h hbest => parseUtxoText_make height h hbest,
    fun _ hne h => parseIndexText_make hne h, fun _ h => parseManifestText_make h⟩

def lowerHash : Str :=
  displayHash 0x00007e7bc2b6d593d9bacb54cd32bacaf9a99ff86adc9ac6fbe36134fff1c372

/-- The largest digest, in capitals. -/
def upperHash : Str := List.replicate 64 70

theorem upperHash_hexDigest : HexDigest upperHash where
  length := List.length_replicate
  digit c hc := by
    rw [List.eq_of_mem_replicate hc]
    exact .inr (by decide)

/-- The most that a coin can hold, without a script, and a coin with one. -/
def twoCoins : UtxoSet :=
  ((∅ : UtxoSet).insert ⟨zeroHashHex, 0xffffffff⟩ ⟨⟨maxMoney, []⟩, 0xffffffffffffffff, true⟩).insert
    ⟨upperHash, 1⟩ ⟨⟨4999990000, [0x51, 0xac]⟩, 12, false⟩

theorem twoCoins_toList {entry : OutPoint × Coin} (h : entry ∈ twoCoins.toList) :
    entry = (⟨upperHash, 1⟩, ⟨⟨4999990000, [0x51, 0xac]⟩, 12, false⟩) ∨
      entry = (⟨zeroHashHex, 0xffffffff⟩, ⟨⟨maxMoney, []⟩, 0xffffffffffffffff, true⟩) := by
  obtain ⟨outpoint, coin⟩ := entry
  rw [OrdMap.mem_toList, twoCoins, OrdMap.getElem?_insert_eq, OrdMap.getElem?_insert_eq] at h
  split_ifs at h with hlast hfirst
  · rw [hlast, ← Option.some.inj h]
    exact .inl rfl
  · rw [hfirst, ← Option.some.inj h]
    exact .inr rfl
  · simp at h

/-- Two blocks, the second as large as a record may be. -/
def twoEntries : List IndexEntry := [⟨0, 0, 200, lowerHash⟩, ⟨1, 216, 16777216, upperHash⟩]

/-- The manifest over both, the last file under a name with the sign that ends a field's name. -/
def twoManifest : Manifest :=
  ⟨0xffffffffffffffff, 1, upperHash, str "index", lowerHash, str "utxo=", upperHash, 16777448⟩

theorem chainstate_texts_round_trip_two :
    parseUtxoText (makeUtxoText twoCoins 1 upperHash) 1 upperHash = .ok twoCoins ∧
    parseIndexText (makeIndexText twoEntries) = .ok twoEntries ∧
    parseManifestText (makeManifestText twoManifest) = .ok twoManifest := by
  obtain ⟨hutxo, hindex, hmanifest⟩ := chainstate_texts_round_trip
  have hzero := IsDisplayHex.zero.hexDigest
  have hlower : HexDigest lowerHash := (IsDisplayHex.display _).hexDigest
  have hupper := upperHash_hexDigest
  refine ⟨hutxo _ _ _ ⟨fun entry h => ?_, fun entry h => ?_⟩ hupper,
    hindex _ (List.cons_ne_nil _ _) ⟨by decide +kernel, ?_, by decide +kernel⟩, hmanifest _ ?_⟩
  · rcases twoCoins_toList h with rfl | rfl
    · exact hupper
    · exact hzero
  · rcases twoCoins_toList h with rfl | rfl <;> decide
  · simpa [twoEntries] using ⟨hlower, hupper⟩
  · have hline : newline ≤ 32 := by decide
    simp only [Manifest.texts, List.forall_mem_cons]
    exact ⟨hupper.visible.notMem hline, by decide, hlower.visible.notMem hline, by decide,
      hupper.visible.notMem hline, nofun⟩

end BinaryCoin
