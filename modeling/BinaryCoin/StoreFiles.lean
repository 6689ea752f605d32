/-
  BinaryCoin — storage.cpp: what the writes of `DurableChainStore` change.

  A file of the chainstate is replaced as a whole or not at all, and the block
  file only grows, so that what has been read in it is read there again.
-/
import BinaryCoin.DurableStore
import BinaryCoin.Reorganization

namespace BinaryCoin

open Crash Cursor Std Text

/-! ## Reading from a file that grows -/

theorem preadAll_append {file more bytes : Bytes} {offset size : ℕ}
    (h : preadAll file offset size = .ok bytes) :
    preadAll (file ++ more) offset size = .ok bytes := by
  obtain ⟨hlength, rfl⟩ := preadAll_ok.1 h
  rw [List.length_take, List.length_drop] at hlength
  have hsame : ((file ++ more).drop offset).take size = (file.drop offset).take size := by
    rw [List.drop_append, List.take_append_of_le_length]
    rw [List.length_drop]
    omega
  refine preadAll_ok.2 ⟨?_, hsame.symm⟩
  rw [List.length_take, List.length_drop]
  omega

section
variable [Crypto]

/-- What a header and a payload are read as. -/
structure RecordRead (expected : Option UInt64) (header : Bytes) (payloadSize : UInt64)
    (payload : Bytes) (block : StoredBlock) : Prop where
  magic : header.take 4 = blockRecordMagic
  fields : ∃ checksum r₁ r₂ r₃, readU32Le.run (header.drop 4) = .ok blockRecordVersion r₁ ∧
    readU64Le.run r₁ = .ok payloadSize r₂ ∧ (readBytes 32).run r₂ = .ok checksum r₃ ∧
      (sha256d payload).bytes = checksum
  limit : payloadSize.toNat ≤ maxBlockRecordSize
  announced : ∀ size ∈ expected, size = payloadSize
  block : deserializeStoredBlock payload = .ok block

/-- **A record** is its header and, behind that, its payload. -/
theorem readRecordAt_ok {file : Bytes} {offset : ℕ} {expected : Option UInt64} {block : StoredBlock} :
    readRecordAt file offset expected = .ok block ↔ ∃ header payloadSize payload,
      preadAll file offset blockRecordHeaderSize = .ok header ∧
      preadAll file (offset + blockRecordHeaderSize) payloadSize.toNat = .ok payload ∧
        RecordRead expected header payloadSize payload block := by
  have hany : ∀ payloadSize : UInt64, ¬ expected.any (· ≠ payloadSize) = true ↔
      ∀ size ∈ expected, size = payloadSize := by
    simp [Option.any_eq_true]
  simp only [readRecordAt, except_bind_ok, throwIf_ok, Reader.parse_ok, run_bind_ok, lift_run_ok,
    throwIf_run_ok, not_not, hany]
  constructor
  · rintro ⟨header, hheader, _, hmagic, rest, version, r₁, hversion, _, _, ⟨rfl, rfl⟩, payloadSize, r₂,
      hsize, _, _, ⟨hle, rfl⟩, _, _, ⟨hexpected, rfl⟩, checksum, r₃, hchecksum, payload, _,
      ⟨hpayload, rfl⟩, _, _, ⟨hsha, rfl⟩, hblock, -⟩
    exact ⟨header, payloadSize, payload, hheader, hpayload, hmagic,
      ⟨checksum, r₁, r₂, _, hversion, hsize, hchecksum, hsha⟩, Nat.not_lt.1 hle, hexpected, hblock⟩
  · rintro ⟨header, payloadSize, payload, hheader, hpayload, hmagic,
      ⟨checksum, r₁, r₂, r₃, hversion, hsize, hchecksum, hsha⟩, hle, hexpected, hblock⟩
    exact ⟨header, hheader, (), hmagic, r₃, _, r₁, hversion, (), _, ⟨rfl, rfl⟩, payloadSize, r₂, hsize,
      (), _, ⟨Nat.not_lt.2 hle, rfl⟩, (), _, ⟨hexpected, rfl⟩, checksum, r₃, hchecksum, payload, _,
      ⟨hpayload, rfl⟩, (), _, ⟨hsha, rfl⟩, hblock, rfl⟩

/-- **What has been read at an offset** is read there from any longer file. -/
theorem readRecordAt_append {file more : Bytes} {offset : ℕ} {size : Option UInt64}
    {block : StoredBlock} (h : readRecordAt file offset size = .ok block) :
    readRecordAt (file ++ more) offset size = .ok block := by
  obtain ⟨header, payloadSize, payload, hheader, hpayload, hread⟩ := readRecordAt_ok.1 h
  exact readRecordAt_ok.2 ⟨header, payloadSize, payload, preadAll_append hheader,
    preadAll_append hpayload, hread⟩

theorem payloadSize_le {file : Bytes} {offset : ℕ} {payloadSize : UInt64} {block : StoredBlock}
    (h : readRecordAt file offset (some payloadSize) = .ok block) :
    payloadSize.toNat ≤ maxBlockRecordSize := by
  obtain ⟨header, size, payload, -, -, hread⟩ := readRecordAt_ok.1 h
  exact hread.announced payloadSize rfl ▸ hread.limit

omit [Crypto] in
theorem preadAll_of_append {file more bytes : Bytes} {offset size : ℕ}
    (hwithin : offset + size ≤ file.length) (h : preadAll (file ++ more) offset size = .ok bytes) :
    preadAll file offset size = .ok bytes := by
  have hread : preadAll file offset size = .ok ((file.drop offset).take size) := by
    refine preadAll_ok.2 ⟨?_, rfl⟩
    rw [List.length_take, List.length_drop]
    omega
  rw [hread, ← h, preadAll_append hread]

/-- A record that lies within the file is read there as from any longer file. -/
theorem readRecordAt_of_append {file more : Bytes} {offset : ℕ} {payloadSize : UInt64}
    {block : StoredBlock} (hwithin : offset + (blockRecordHeaderSize + payloadSize.toNat) ≤ file.length)
    (h : readRecordAt (file ++ more) offset (some payloadSize) = .ok block) :
    readRecordAt file offset (some payloadSize) = .ok block := by
  obtain ⟨header, size, payload, hheader, hpayload, hread⟩ := readRecordAt_ok.1 h
  obtain rfl := hread.announced payloadSize rfl
  exact readRecordAt_ok.2 ⟨header, payloadSize, payload, preadAll_of_append (by omega) hheader,
    preadAll_of_append (by omega) hpayload, hread⟩

/-! ## The catalog -/

/-- What every record that is added preserves holds at the end of the scan. -/
theorem scanLoop_preserves {I : ExtTreeMap Str IndexEntry → Prop} {file : Bytes}
    (hadd : ∀ offset payloadSize catalog, offset < file.length → I catalog →
      I (addRecord file offset payloadSize catalog)) {offset : ℕ}
    {catalog catalog' : ExtTreeMap Str IndexEntry} (h : I catalog)
    (hscan : scanLoop file offset catalog = .ok catalog') : I catalog' := by
  induction hn : file.length - offset using Nat.strong_induction_on generalizing offset catalog with
  | _ n ih =>
    subst hn
    rw [scanLoop] at hscan
    split_ifs at hscan with hoffset htail
    · exact Except.ok.inj hscan ▸ h
    · split at hscan
      · cases hscan
      · exact Except.ok.inj hscan ▸ h
      · next payloadSize _ =>
        have hpos : 0 < blockRecordHeaderSize := by decide
        exact ih _ (by omega) (hadd offset payloadSize catalog hoffset h) hscan rfl
    · exact Except.ok.inj hscan ▸ h

/-- An entry under a hash names a record of a block with that hash. -/
structure Entered (file : Bytes) (hash : Str) (entry : IndexEntry) : Prop where
  key : entry.hash = hash
  block : ∃ block, readRecordAt file entry.offset.toNat (some entry.payloadSize) = .ok block ∧
    block.hashHex = .ok hash

theorem Entered.addRecord {file : Bytes} {catalog : ExtTreeMap Str IndexEntry} {offset : ℕ}
    {payloadSize : UInt64}
    (h : ∀ (hash : Str) (entry : IndexEntry), catalog[hash]? = some entry → Entered file hash entry)
    (hoffset : offset < 2 ^ 64) (hash : Str) (entry : IndexEntry)
    (hfound : (BinaryCoin.addRecord file offset payloadSize catalog)[hash]? = some entry) :
    Entered file hash entry := by
  unfold BinaryCoin.addRecord at hfound
  split at hfound
  · next entry' hread =>
    obtain ⟨block, hblock, hread⟩ := except_bind_ok.1 hread
    obtain ⟨text, htext, hentry⟩ := except_bind_ok.1 hread
    obtain rfl := except_pure_ok.1 hentry
    dsimp only at hfound
    rw [OrdMap.getElem?_insertIfNew_eq] at hfound
    split_ifs at hfound with hnew
    · obtain rfl := Option.some.inj hfound
      obtain ⟨rfl, -⟩ := hnew
      refine ⟨rfl, block, ?_, htext⟩
      dsimp only
      rwa [UInt64.toNat_ofNat_of_lt' hoffset]
    · exact h hash entry hfound
  · exact h hash entry hfound

theorem entered_of_scan {file : BlockFile} {catalog : ExtTreeMap Str IndexEntry}
    (hscan : scanCatalog (some file) = .ok catalog) {hash : Str} {entry : IndexEntry}
    (hfound : catalog[hash]? = some entry) : Entered file.bytes hash entry := by
  refine scanLoop_preserves
    (I := fun catalog => ∀ (hash : Str) (entry : IndexEntry), catalog[hash]? = some entry →
      Entered file.bytes hash entry) ?_ ?_ hscan hash entry hfound
  · intro offset payloadSize catalog hoffset h
    exact Entered.addRecord h (hoffset.trans file.size_lt)
  · intro hash entry h
    rw [ExtTreeMap.getElem?_empty] at h
    cases h

/-! ### The catalog of a file that grows -/

theorem addRecord_append {file more : Bytes} {offset : ℕ} {payloadSize : UInt64}
    (hwithin : offset + (blockRecordHeaderSize + payloadSize.toNat) ≤ file.length)
    (catalog : ExtTreeMap Str IndexEntry) :
    addRecord (file ++ more) offset payloadSize catalog = addRecord file offset payloadSize catalog := by
  unfold addRecord
  cases hread : readRecordAt file offset (some payloadSize) with
  | ok block => rw [readRecordAt_append hread]
  | error e =>
    cases hread' : readRecordAt (file ++ more) offset (some payloadSize) with
    | ok block =>
      rw [readRecordAt_of_append hwithin hread'] at hread
      cases hread
    | error e' => rfl

omit [Crypto] in
theorem announcedSize_mono {remaining remaining' : ℕ} {header : Bytes} {payloadSize : UInt64}
    (hle : remaining ≤ remaining') (h : announcedSize remaining header = .ok (some payloadSize)) :
    announcedSize remaining' header = .ok (some payloadSize) ∧
      blockRecordHeaderSize + payloadSize.toNat ≤ remaining := by
  unfold announcedSize at h ⊢
  by_cases hmagic : header.take 4 ≠ blockRecordMagic
  · rw [if_pos hmagic] at h
    cases h
  rw [if_neg hmagic] at h ⊢
  simp only [Reader.parse_ok, run_bind_ok] at h ⊢
  obtain ⟨rest, version, r₁, hversion, h⟩ := h
  by_cases hother : version ≠ blockRecordVersion
  · rw [if_pos hother] at h
    cases h
  rw [if_neg hother, run_bind_ok] at h
  obtain ⟨size, r₂, hsize, h⟩ := h
  split_ifs at h with hlarge
  · cases h
  · obtain ⟨heq, rfl⟩ := run_pure_ok.1 h
    obtain rfl := Option.some.inj heq
    rw [not_or, Nat.not_lt, Nat.not_lt] at hlarge
    refine ⟨⟨r₂, version, r₁, hversion, ?_⟩, hlarge.2⟩
    rw [if_neg hother, run_bind_ok]
    refine ⟨size, r₂, hsize, ?_⟩
    rw [if_neg (by omega)]
    rfl

theorem scanLoop_kept {file : Bytes} {offset : ℕ} {catalog found : ExtTreeMap Str IndexEntry} {hash : Str}
    {entry : IndexEntry} (hold : catalog[hash]? = some entry)
    (h : scanLoop file offset catalog = .ok found) : found[hash]? = some entry := by
  refine scanLoop_preserves (I := fun catalog => catalog[hash]? = some entry) ?_ hold h
  intro offset payloadSize catalog _ hold
  unfold addRecord
  split
  · next entry' _ =>
    rw [OrdMap.getElem?_insertIfNew_eq, if_neg]
    · exact hold
    · rintro ⟨rfl, hnone⟩
      rw [hold] at hnone
      cases hnone
  · exact hold

/-- **The records that are found** in a file are found in any longer one. -/
theorem scanLoop_append {file more : Bytes} {offset : ℕ} {catalog found found' : ExtTreeMap Str IndexEntry}
    (h : scanLoop file offset catalog = .ok found)
    (h' : scanLoop (file ++ more) offset catalog = .ok found') {hash : Str} {entry : IndexEntry}
    (hentry : found[hash]? = some entry) : found'[hash]? = some entry := by
  induction hn : file.length - offset using Nat.strong_induction_on generalizing offset catalog with
  | _ n ih =>
    subst hn
    rw [scanLoop] at h
    split_ifs at h with hoffset htail
    · obtain rfl := Except.ok.inj h
      exact scanLoop_kept hentry h'
    · split at h
      · cases h
      · obtain rfl := Except.ok.inj h
        exact scanLoop_kept hentry h'
      · next payloadSize hannounced =>
        obtain ⟨header, hheader, hannounced⟩ := except_bind_ok.1 hannounced
        have hle : file.length - offset ≤ (file ++ more).length - offset := by
          rw [List.length_append]
          omega
        obtain ⟨hmore, hwithin⟩ := announcedSize_mono hle hannounced
        have hstep : (preadAll (file ++ more) offset blockRecordHeaderSize >>=
            announcedSize ((file ++ more).length - offset)) = .ok (some payloadSize) :=
          except_bind_ok.2 ⟨header, preadAll_append hheader, hmore⟩
        rw [scanLoop, if_pos (by omega), if_neg (by omega), hstep] at h'
        dsimp only at h'
        rw [addRecord_append (by omega)] at h'
        have hpos : 0 < blockRecordHeaderSize := by decide
        exact ih _ (by omega) h h' rfl
    · obtain rfl := Except.ok.inj h
      exact scanLoop_kept hentry h'

/-- A block that a scan finds is found by the scan of any longer file. -/
theorem scanAllBlocks_append {file file' : BlockFile} {records records' : List StoredBlock}
    (hle : file.bytes <+: file'.bytes) (h : scanAllBlocks (some file) = .ok records)
    (h' : scanAllBlocks (some file') = .ok records') {block : StoredBlock} (hblock : block ∈ records) :
    block ∈ records' := by
  obtain ⟨more, hmore⟩ := hle
  obtain ⟨catalog, hscan, hread⟩ := except_bind_ok.1 h
  obtain ⟨catalog', hscan', hread'⟩ := except_bind_ok.1 h'
  obtain ⟨entry, hentry, hrecord⟩ := mem_of_mapM hread hblock
  obtain ⟨hash, hfound⟩ := OrdMap.mem_values.1 hentry
  rw [scanCatalog, ← hmore] at hscan'
  refine mem_mapM_of_mem hread' (OrdMap.mem_values.2 ⟨hash, scanLoop_append hscan hscan' hfound⟩) ?_
  rw [← hmore]
  exact readRecordAt_append hrecord

end

/-! ## The names are different -/

section

theorem generationName_inj {name : String} {g g' : UInt64}
    (h : generationName name g = generationName name g') : g = g' := by
  have hmiddle := List.append_cancel_left (List.append_cancel_right h)
  have hvalue := congrArg decimalValue hmiddle
  rw [decimalValue_zeroFill, decimalValue_zeroFill, decimalValue_decimal, decimalValue_decimal] at hvalue
  exact UInt64.toNat_inj.1 hvalue

theorem indexName_inj {g g' : UInt64} : indexName g = indexName g' ↔ g = g' :=
  ⟨generationName_inj, fun h => h ▸ rfl⟩

theorem utxoName_inj {g g' : UInt64} : utxoName g = utxoName g' ↔ g = g' :=
  ⟨generationName_inj, fun h => h ▸ rfl⟩

theorem head?_indexName (g : UInt64) : (indexName g).head? = some 98 := rfl

theorem head?_utxoName (g : UInt64) : (utxoName g).head? = some 117 := rfl

theorem head?_manifestName : manifestName.head? = some 109 := rfl

theorem indexName_ne_utxoName (g g' : UInt64) : indexName g ≠ utxoName g' := by
  intro h
  have hhead := congrArg List.head? h
  rw [head?_indexName, head?_utxoName] at hhead
  exact absurd hhead (by decide)

theorem indexName_ne_manifestName (g : UInt64) : indexName g ≠ manifestName := by
  intro h
  have hhead := congrArg List.head? h
  rw [head?_indexName, head?_manifestName] at hhead
  exact absurd hhead (by decide)

theorem utxoName_ne_manifestName (g : UInt64) : utxoName g ≠ manifestName := by
  intro h
  have hhead := congrArg List.head? h
  rw [head?_utxoName, head?_manifestName] at hhead
  exact absurd hhead (by decide)

/-- The names that are read. -/
inductive StoreName : Str → Prop
  | manifest : StoreName manifestName
  | index (g : UInt64) : StoreName (indexName g)
  | utxo (g : UInt64) : StoreName (utxoName g)

theorem getLast?_temporary (name : Str) : (temporary name).getLast? = some 112 := by
  rw [temporary, List.getLast?_append]
  rfl

theorem StoreName.ne_temporary {name other : Str} (h : StoreName name) : name ≠ temporary other := by
  intro heq
  have hlast := congrArg List.getLast? heq
  rw [getLast?_temporary] at hlast
  cases h with
  | manifest => exact absurd hlast (by decide)
  | index g =>
    rw [indexName, generationName, List.getLast?_append] at hlast
    have hends : some (118 : UInt8) = some 112 := hlast
    exact absurd hends (by decide)
  | utxo g =>
    rw [utxoName, generationName, List.getLast?_append] at hlast
    have hends : some (118 : UInt8) = some 112 := hlast
    exact absurd hends (by decide)

theorem ne_temporary_self (name : Str) : name ≠ temporary name := by
  intro h
  have hlength := congrArg List.length h
  rw [temporary, List.length_append] at hlength
  exact absurd hlength (by simp [str])

end

/-! ## Disks that differ in some files -/

/-- The disks have the same block file, and differ in the files `names` at most. -/
structure Apart (names : Set Str) (d d' : Disk) : Prop where
  blockFile : d'.blockFile = d.blockFile
  chainstate : ∀ name, name ∉ names → d'.chainstate[name]? = d.chainstate[name]?

section
variable {names names' : Set Str} {d d₁ d' : Disk} {name other : Str} {bytes : Bytes}

theorem Apart.refl (names : Set Str) (d : Disk) : Apart names d d := ⟨rfl, fun _ _ => rfl⟩

theorem Apart.trans (h : Apart names d d₁) (h' : Apart names d₁ d') : Apart names d d' :=
  ⟨h'.blockFile.trans h.blockFile, fun name hname =>
    (h'.chainstate name hname).trans (h.chainstate name hname)⟩

theorem Apart.mono (h : Apart names d d') (hsub : names ⊆ names') : Apart names' d d' :=
  ⟨h.blockFile, fun name hname => h.chainstate name fun hmem => hname (hsub hmem)⟩

theorem Disk.getElem?_write :
    (d.write name bytes).chainstate[other]? = if other = name then some bytes else d.chainstate[other]? :=
  OrdMap.getElem?_insert_eq _ _ _ _

theorem Disk.getElem?_remove :
    (d.remove name).chainstate[other]? = if other = name then none else d.chainstate[other]? :=
  OrdMap.getElem?_erase_eq _ _ _

theorem apart_write (hname : name ∈ names) : Apart names d (d.write name bytes) := by
  refine ⟨rfl, ?_⟩
  intro other hother
  rw [Disk.getElem?_write, if_neg]
  rintro rfl
  exact hother hname

theorem apart_remove (hname : name ∈ names) : Apart names d (d.remove name) := by
  refine ⟨rfl, ?_⟩
  intro other hother
  rw [Disk.getElem?_remove, if_neg]
  rintro rfl
  exact hother hname

theorem apart_rename (hname : name ∈ names) (hother : other ∈ names) :
    Apart names d (d.rename name other) := by
  rw [Disk.rename]
  cases d.chainstate[name]? with
  | none => exact .refl names d
  | some bytes => exact (apart_remove hname).trans (apart_write hother)

/-- The file has been replaced as a whole. -/
structure Replaced (name : Str) (bytes : Bytes) (d d' : Disk) : Prop
    extends Apart {name, temporary name} d d' where
  file : d'.chainstate[name]? = some bytes

/-! ## `atomic_write` -/

theorem triple_lift_bind {A B : Type} {P : Disk → Prop} {Q : B → Disk → Prop} {R : Disk → Prop}
    {x : Except Exn A} {f : A → StoreM B} (hR : ∀ d, P d → R d)
    (h : ∀ a, x = .ok a → Triple P (f a) Q R) : Triple P (liftM x >>= f) Q R := by
  cases x with
  | ok a => exact h a rfl
  | error e =>
    intro m hm
    exact Through.refl (hR _ hm)

theorem triple_throwIf_bind {B : Type} {P : Disk → Prop} {Q : B → Disk → Prop} {R : Disk → Prop}
    {c : Prop} [Decidable c] {e : Exn} {f : Unit → StoreM B} (hR : ∀ d, P d → R d)
    (h : ¬ c → Triple P (f ()) Q R) : Triple P (throwIf c e >>= f) Q R := by
  by_cases hc : c
  · rw [throwIf, if_pos hc]
    intro m hm
    exact Through.refl (hR _ hm)
  · rw [throwIf, if_neg hc]
    exact h hc

/-- What has been written so far. -/
structure Writing (name : Str) (bytes : Bytes) (d d' : Disk) : Prop
    extends Apart {temporary name} d d' where
  file : d'.chainstate[temporary name]? = some bytes

theorem writeBytes_triple {written : Bytes} : Triple (Writing name written d)
    (forM bytes fun byte => operation (Disk.writeByte (temporary name) byte) : StoreM Unit)
    (fun _ => Writing name (written ++ bytes) d) (Apart {temporary name} d) := by
  induction bytes generalizing written with
  | nil =>
    rw [List.append_nil]
    exact .pure (fun _ h => h) fun _ h => h.toApart
  | cons byte bytes ih =>
    have hnext : ∀ d', Writing name written d d' →
        Writing name (written ++ [byte]) d (d'.writeByte (temporary name) byte) := by
      intro d' h
      refine ⟨h.toApart.trans (apart_write rfl), ?_⟩
      rw [Disk.writeByte, Disk.getElem?_write, if_pos rfl, h.file]
      rfl
    rw [List.forM_cons, List.append_cons]
    refine .bind (Q := fun _ => Writing name (written ++ [byte]) d)
      (.operation (fun _ h => h.toApart) hnext fun d' h => (hnext d' h).toApart) fun _ => ih

/-- **A file is replaced as a whole or not at all.** -/
theorem atomicWrite_triple (name : Str) (bytes : Bytes) (d : Disk) :
    Triple (fun d' => d' = d) (atomicWrite name bytes) (fun _ => Replaced name bytes d)
      (fun d' => Apart {temporary name} d d' ∨ Replaced name bytes d d') := by
  have hstart : ∀ d', d' = d → Apart {temporary name} d d' := by
    rintro d' rfl
    exact .refl _ _
  have hopen : ∀ d', d' = d → Writing name [] d (d'.write (temporary name) []) := by
    rintro d' rfl
    refine ⟨apart_write rfl, ?_⟩
    rw [Disk.getElem?_write, if_pos rfl]
  have hremove : ∀ d', Apart {temporary name} d d' → Apart {temporary name} d (d'.remove (temporary name)) :=
    fun d' h => h.trans (apart_remove rfl)
  have hclean : ∀ {A : Type} {e : Exn} {Q : A → Disk → Prop}, Triple (Apart {temporary name} d)
      (do attempt (operation (Disk.remove (temporary name))); throw e : StoreM A) Q
      (Apart {temporary name} d) := by
    intro A e Q
    exact .bind (.attempt hremove fun _ h => h) fun _ => .throw fun _ h => h
  have hrename : ∀ d', Writing name bytes d d' →
      Replaced name bytes d (d'.rename (temporary name) name) := by
    intro d' h
    have hsub : ({temporary name} : Set Str) ⊆ {name, temporary name} := by
      intro other hother
      exact .inr hother
    refine ⟨(h.toApart.mono hsub).trans (apart_rename (.inr rfl) (.inl rfl)), ?_⟩
    rw [Disk.rename, h.file]
    dsimp only
    rw [Disk.getElem?_write, if_pos rfl]
  have hdone : ∀ d', Replaced name bytes d d' →
      Replaced name bytes d (d'.remove (temporary name)) := by
    intro d' h
    refine ⟨h.toApart.trans (apart_remove (.inr rfl)), ?_⟩
    rw [Disk.getElem?_remove, if_neg (ne_temporary_self name), h.file]
  rw [atomicWrite]
  refine .bind (Q := fun _ d' => d' = d) (.idle (fun _ h => h) fun d' h => .inl (hstart d' h))
    fun _ => ?_
  refine .bind (Q := fun _ => Writing name [] d) (.operation (fun d' h => .inl (hstart d' h)) hopen
    fun d' h => .inl (hopen d' h).toApart) fun _ => ?_
  refine .bind (Q := fun _ => Writing name bytes d) ?_ fun _ => ?_
  · refine Triple.imp (P := Writing name [] d) (Q := fun _ => Writing name bytes d)
      (R := Apart {temporary name} d) (.tryCatch ?_ fun e => hclean) (fun _ h => h) (fun _ _ h => h)
      fun _ => .inl
    refine .bind writeBytes_triple fun _ =>
      .bind (Q := fun _ => Writing name ([] ++ bytes) d) ?_ fun _ => ?_
    · exact .idle (fun _ h => h) fun _ h => h.toApart
    · exact .idle (fun _ h => h) fun _ h => h.toApart
  refine .bind (Q := fun _ => Replaced name bytes d) (.tryCatch ?_ ?_) fun _ =>
    .idle (fun _ h => h) fun _ => .inr
  · exact .operation (fun _ h => .inl h.toApart) hrename fun d' h => .inr (hrename d' h)
  · intro e
    refine .bind (Q := fun _ d' => Apart {temporary name} d d' ∨ Replaced name bytes d d')
      (.attempt ?_ fun _ h => h) fun _ => .throw fun _ h => h
    rintro d' (h | h)
    · exact .inl (hremove d' h)
    · exact .inr (hdone d' h)

end

/-! ## The block file grows -/

/-- What is in the block file stays there. -/
def Extends (d d' : Disk) : Prop :=
  ∀ file, d.blockFile = some file → ∃ file', d'.blockFile = some file' ∧ file.bytes <+: file'.bytes

/-- The other files are the same. -/
structure Grows (d d' : Disk) : Prop where
  file : Extends d d'
  chainstate : d'.chainstate = d.chainstate

section
variable {d d₁ d' : Disk} {byte : UInt8}

theorem Extends.refl (d : Disk) : Extends d d := fun file h => ⟨file, h, List.prefix_rfl⟩

theorem Extends.trans (h : Extends d d₁) (h' : Extends d₁ d') : Extends d d' := by
  intro file hfile
  obtain ⟨file₁, hfile₁, hle⟩ := h file hfile
  obtain ⟨file', hfile', hle'⟩ := h' file₁ hfile₁
  exact ⟨file', hfile', hle.trans hle'⟩

theorem Apart.extended {names : Set Str} (h : Apart names d d') : Extends d d' := by
  intro file hfile
  exact ⟨file, h.blockFile.trans hfile, List.prefix_rfl⟩

theorem Grows.refl (d : Disk) : Grows d d := ⟨.refl d, rfl⟩

theorem Grows.trans (h : Grows d d₁) (h' : Grows d₁ d') : Grows d d' :=
  ⟨h.file.trans h'.file, h'.chainstate.trans h.chainstate⟩

theorem grows_openBlocks (d : Disk) : Grows d d.openBlocks := by
  refine ⟨?_, rfl⟩
  intro file hfile
  refine ⟨file, ?_, List.prefix_rfl⟩
  rw [Disk.openBlocks, hfile]
  rfl

theorem grows_appendByte (byte : UInt8) (d : Disk) : Grows d (d.appendByte byte) := by
  rw [Disk.appendByte]
  cases hfile : d.blockFile with
  | none => exact .refl d
  | some file =>
    dsimp only
    split_ifs with hroom
    · refine ⟨?_, rfl⟩
      intro file' hfile'
      obtain rfl := Option.some.inj (hfile.symm.trans hfile')
      exact ⟨_, rfl, List.prefix_append _ _⟩
    · exact .refl d

theorem writeBlockByte_grows : Triple (Grows d) (writeBlockByte byte) (fun _ => Grows d) (Grows d) := by
  refine .contents_bind fun d₀ h₀ => triple_throwIf_bind (fun d' h => h ▸ h₀) fun _ => ?_
  have hnext : ∀ d', d' = d₀ → Grows d (d'.appendByte byte) := by
    rintro d' rfl
    exact h₀.trans (grows_appendByte byte d')
  exact .operation (fun d' h => h ▸ h₀) hnext hnext

variable [Crypto]

theorem appendMissing_grows {blocks : List StoredBlock} {catalog : ExtTreeMap Str IndexEntry}
    {offset : UInt64} {appended : Bool} :
    Triple (Grows d) (appendMissing blocks catalog offset appended) (fun _ => Grows d) (Grows d) := by
  induction blocks generalizing catalog offset appended with
  | nil => exact .pure (fun _ h => h) fun _ h => h
  | cons block blocks ih =>
    rw [appendMissing]
    refine triple_lift_bind (fun _ h => h) fun hash _ => ?_
    split_ifs
    · exact ih
    · refine triple_lift_bind (fun _ h => h) fun record _ => ?_
      exact .bind (.forM (fun _ _ => writeBlockByte_grows) fun _ h => h) fun _ => ih

theorem scanBlockFile_triple {P : Disk → Prop} : Triple P scanBlockFile
    (fun catalog d => P d ∧ scanCatalog d.blockFile = .ok catalog) P := by
  refine .bind (Q := fun _ => P) (.idle (fun _ h => h) fun _ h => h) fun _ =>
    .contents_bind fun d hd => ?_
  intro m hm
  subst hm
  cases hscan : scanCatalog m.disk.blockFile with
  | ok catalog => exact ⟨⟨hd, hscan⟩, .refl hd⟩
  | error e => exact .refl hd

/-- **The block file only grows.** -/
theorem appendBlockFile_grows (blocks : List StoredBlock) :
    Triple (Grows d) (appendBlockFile blocks) (fun _ => Grows d) (Grows d) := by
  have hidle : Triple (Grows d) idle (fun _ => Grows d) (Grows d) :=
    .idle (fun _ h => h) fun _ h => h
  have hopen : ∀ d', Grows d d' → Grows d d'.openBlocks := fun d' h => h.trans (grows_openBlocks d')
  refine .bind (scanBlockFile_triple.imp (fun _ h => h) (fun _ _ h => h.1) fun _ h => h) fun catalog => ?_
  refine .bind (.operation (fun _ h => h) hopen hopen) fun _ => .bind hidle fun _ => ?_
  refine .contents_bind fun d₀ h₀ => ?_
  refine .bind (appendMissing_grows.imp (fun d' h => h ▸ h₀) (fun _ _ h => h) fun _ h => h)
    fun appended => ?_
  dsimp only
  split_ifs
  · exact .bind hidle fun _ => .bind hidle fun _ => hidle
  · exact .bind hidle fun _ => hidle

end

end BinaryCoin
