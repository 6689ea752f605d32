/-
  BinaryCoin — storage.cpp: commits that are not interrupted.

  On a block file of whole records every commit returns, and leaves a block
  file of whole records.
-/
import BinaryCoin.StoreCommit

namespace BinaryCoin

open Crash Cursor LittleEndian Stateful Std Text

/-! ## A file of whole records -/

section
variable [Crypto]

/-- What is read back from a record. -/
structure Recordable (block : StoredBlock) : Prop where
  canonical : block.Canonical
  withinLimits : block.WithinLimits
  size : block.encode.length ≤ maxBlockRecordSize

def recordsFile (records : List StoredBlock) : Bytes :=
  records.flatMap fun block => recordOf block.encode

variable {b : StoredBlock} {before after : Bytes} {catalog : ExtTreeMap Str IndexEntry}

def payloadSize (b : StoredBlock) : UInt64 := UInt64.ofNat b.encode.length

omit [Crypto] in
theorem Recordable.toNat_payloadSize (h : Recordable b) : (payloadSize b).toNat = b.encode.length := by
  have hlt : maxBlockRecordSize < 2 ^ 64 := by decide
  exact UInt64.toNat_ofNat_of_lt' (h.size.trans_lt hlt)

omit [Crypto] in
theorem preadAll_middle (before middle after : Bytes) :
    preadAll (before ++ (middle ++ after)) before.length middle.length = .ok middle := by
  rw [preadAll_ok, List.drop_left, List.take_left]
  exact ⟨rfl, rfl⟩

/-- The header of a record. -/
def recordHeader (payload : Bytes) : Bytes :=
  blockRecordMagic ++ (leBytes 4 blockRecordVersion.toNat ++
    (leBytes 8 (UInt64.ofNat payload.length).toNat ++ ((sha256d payload).bytes ++ [])))

theorem recordOf_eq (payload : Bytes) : recordOf payload = recordHeader payload ++ payload := by
  simp only [recordOf, recordHeader, appendU64Le, appendU32Le, List.append_assoc, List.append_nil]

theorem length_recordHeader (payload : Bytes) :
    (recordHeader payload).length = blockRecordHeaderSize := by
  have h := length_recordOf payload
  rw [recordOf_eq, List.length_append] at h
  omega

theorem preadAll_header : preadAll (before ++ (recordOf b.encode ++ after)) before.length
    blockRecordHeaderSize = .ok (recordHeader b.encode) := by
  rw [recordOf_eq, List.append_assoc, ← length_recordHeader b.encode]
  exact preadAll_middle _ _ _

/-- **A record is read back.** -/
theorem Recordable.read (h : Recordable b) : readRecordAt (before ++ (recordOf b.encode ++ after))
    before.length (some (payloadSize b)) = .ok b := by
  have hsize : ¬ (payloadSize b).toNat > maxBlockRecordSize := by
    rw [h.toNat_payloadSize]
    exact Nat.not_lt.2 h.size
  have hpayload : preadAll (before ++ (recordOf b.encode ++ after))
      (before.length + blockRecordHeaderSize) (payloadSize b).toNat = .ok b.encode := by
    rw [h.toNat_payloadSize, recordOf_eq, List.append_assoc, ← List.append_assoc, ←
      length_recordHeader b.encode, ← List.length_append]
    exact preadAll_middle _ _ _
  have hblock := deserializeStoredBlock_ok.2 ⟨⟨h.canonical, h.withinLimits⟩, rfl⟩
  refine readRecordAt_ok.2 ⟨_, payloadSize b, b.encode, preadAll_header, hpayload, ?_⟩
  exact {
    magic := by simp [recordHeader, blockRecordMagic]
    fields := ⟨_, _, _, _, readU32Le_decodes.encode trivial _, readU64Le_decodes.encode trivial _,
      (readBytes_decodes 32).encode (sha256d b.encode).size_eq [], rfl⟩
    limit := Nat.not_lt.1 hsize
    announced := fun size hsome => Option.mem_some.1 hsome ▸ rfl
    block := hblock }

theorem Recordable.announced (h : Recordable b) {remaining : ℕ}
    (hremaining : (recordOf b.encode).length ≤ remaining) :
    announcedSize remaining (recordHeader b.encode) = .ok (some (payloadSize b)) := by
  have hfits : ¬ ((payloadSize b).toNat > maxBlockRecordSize ∨
      blockRecordHeaderSize + (payloadSize b).toNat > remaining) := by
    rw [length_recordOf] at hremaining
    rw [h.toNat_payloadSize, not_or, Nat.not_lt, Nat.not_lt]
    exact ⟨h.size, hremaining⟩
  unfold announcedSize
  rw [if_neg (by simp [recordHeader, blockRecordMagic])]
  simp only [Reader.parse_ok, run_bind_ok]
  refine ⟨(sha256d b.encode).bytes ++ [], blockRecordVersion, _,
    readU32Le_decodes.encode trivial _, ?_⟩
  rw [if_neg (not_not.2 rfl), run_bind_ok]
  refine ⟨payloadSize b, _, readU64Le_decodes.encode trivial _, ?_⟩
  rw [if_neg hfits]
  rfl

/-! ### The scan of whole records -/

theorem addRecord_of_read {file : Bytes} {offset : ℕ} {hash : Str}
    (hread : readRecordAt file offset (some (payloadSize b)) = .ok b) (hhash : b.hashHex = .ok hash) :
    addRecord file offset (payloadSize b) catalog =
      catalog.insertIfNew hash ⟨b.height, UInt64.ofNat offset, payloadSize b, hash⟩ := by
  unfold addRecord
  rw [hread, except_ok_bind, hhash]
  rfl

theorem Recordable.scan (h : Recordable b) :
    scanLoop (before ++ (recordOf b.encode ++ after)) before.length catalog =
      scanLoop (before ++ (recordOf b.encode ++ after)) (before ++ recordOf b.encode).length
        (addRecord (before ++ (recordOf b.encode ++ after)) before.length (payloadSize b)
          catalog) := by
  have hlength := length_recordOf b.encode
  have hpos : 0 < blockRecordHeaderSize := by decide
  have htotal : (before ++ (recordOf b.encode ++ after)).length =
      before.length + ((recordOf b.encode).length + after.length) := by
    rw [List.length_append, List.length_append]
  have hannounced : (preadAll (before ++ (recordOf b.encode ++ after)) before.length
      blockRecordHeaderSize >>= announcedSize
        ((before ++ (recordOf b.encode ++ after)).length - before.length)) =
      .ok (some (payloadSize b)) :=
    except_bind_ok.2 ⟨_, preadAll_header, h.announced (by omega)⟩
  rw [scanLoop, if_pos (by omega), if_neg (by omega), hannounced]
  dsimp only
  rw [List.length_append, hlength, h.toNat_payloadSize]

/-- **The scan of whole records** finds each of them, and nothing else. -/
theorem scan_records {records : List StoredBlock} {found : ExtTreeMap Str IndexEntry}
    (hrecords : ∀ b ∈ records, Recordable b) (hsize : (before ++ recordsFile records).length < 2 ^ 64)
    (h : scanLoop (before ++ recordsFile records) before.length catalog = .ok found) :
    (∀ b ∈ records, ∀ hash, b.hashHex = .ok hash → ∃ entry, found[hash]? = some entry) ∧
      ∀ (hash : Str) (entry : IndexEntry), found[hash]? = some entry →
        catalog[hash]? = some entry ∨ ∃ b ∈ records, b.hashHex = .ok hash ∧
          readRecordAt (before ++ recordsFile records) entry.offset.toNat (some entry.payloadSize) =
            .ok b := by
  induction records generalizing before catalog with
  | nil =>
    rw [scanLoop, if_neg (by simp [recordsFile])] at h
    obtain rfl := Except.ok.inj h
    exact ⟨List.forall_mem_nil _, fun hash entry hfound => .inl hfound⟩
  | cons b records ih =>
    obtain ⟨hb, hrest⟩ := List.forall_mem_cons.1 hrecords
    have hfile : before ++ recordsFile (b :: records) =
        (before ++ recordOf b.encode) ++ recordsFile records := by
      rw [recordsFile, List.flatMap_cons, List.append_assoc]
      rfl
    have hhash := hb.canonical.hashHex
    have hread : readRecordAt (before ++ recordsFile (b :: records)) before.length
        (some (payloadSize b)) = .ok b := hb.read
    have hlt : before.length < 2 ^ 64 := by
      rw [List.length_append] at hsize
      omega
    have hscan : scanLoop (before ++ recordsFile (b :: records)) before.length catalog =
        scanLoop (before ++ recordsFile (b :: records)) (before ++ recordOf b.encode).length
          (addRecord (before ++ recordsFile (b :: records)) before.length (payloadSize b) catalog) :=
      hb.scan
    rw [hscan, addRecord_of_read hread hhash, hfile] at h
    obtain ⟨hall, honly⟩ := ih hrest (hfile ▸ hsize) h
    constructor
    · refine List.forall_mem_cons.2 ⟨?_, hall⟩
      intro hash hb'
      obtain rfl := Except.ok.inj (hhash.symm.trans hb')
      obtain ⟨entry, hentry⟩ : ∃ entry, (catalog.insertIfNew
          (hashToDisplayHex (sha256d b.block.header.encode)) ⟨b.height, UInt64.ofNat before.length,
            payloadSize b, hashToDisplayHex (sha256d b.block.header.encode)⟩)[
              hashToDisplayHex (sha256d b.block.header.encode)]? = some entry := by
        rw [OrdMap.getElem?_insertIfNew_eq]
        cases hold : catalog[hashToDisplayHex (sha256d b.block.header.encode)]? with
        | none => exact ⟨_, if_pos ⟨rfl, rfl⟩⟩
        | some entry =>
          refine ⟨entry, if_neg ?_⟩
          rintro ⟨-, hnone⟩
          cases hnone
      exact ⟨entry, scanLoop_kept hentry h⟩
    · intro hash entry hentry
      rcases honly hash entry hentry with hold | ⟨b', hmem, hhash', hread'⟩
      · rw [OrdMap.getElem?_insertIfNew_eq] at hold
        split_ifs at hold with hnew
        · obtain rfl := Option.some.inj hold
          refine .inr ⟨b, List.mem_cons_self, hnew.1 ▸ hhash, ?_⟩
          dsimp only
          rw [UInt64.toNat_ofNat_of_lt' hlt]
          exact hread
        · exact .inl hold
      · exact .inr ⟨b', List.mem_cons_of_mem b hmem, hhash', hfile ▸ hread'⟩

/-! ## Where nothing fails -/

/-- The contents of the block file. -/
def HasFile (bytes : Bytes) (d : Disk) : Prop := ∃ file, d.blockFile = some file ∧ file.bytes = bytes

omit [Crypto] in
theorem HasFile.apart {bytes : Bytes} {names : Set Str} {d d' : Disk} (h : HasFile bytes d)
    (hapart : Apart names d d') : HasFile bytes d' := by
  obtain ⟨file, hfile, hbytes⟩ := h
  exact ⟨file, hapart.blockFile.trans hfile, hbytes⟩

omit [Crypto] in
theorem total_lift_bind {A B : Type} {P : Disk → Prop} {Q : B → Disk → Prop} {x : Except Exn A} {a : A}
    {f : A → StoreM B} (hx : x = .ok a) (h : Total P (f a) Q) : Total P (liftM x >>= f) Q :=
  hx ▸ h

omit [Crypto] in
theorem total_throwIf_bind {B : Type} {P : Disk → Prop} {Q : B → Disk → Prop} {c : Prop} [Decidable c]
    {e : Exn} {f : Unit → StoreM B} (hc : ¬ c) (h : Total P (f ()) Q) :
    Total P (throwIf c e >>= f) Q := by
  rw [throwIf, if_neg hc]
  exact h

omit [Crypto] in
theorem atomicWrite_total {name bytes : Bytes} {contents : Bytes} :
    Total (HasFile contents) (atomicWrite name bytes) fun _ => HasFile contents := by
  have hreturns : Total (HasFile contents) (atomicWrite name bytes) fun _ _ => True := by
    refine .bind idle_total fun _ => .bind (Q := fun _ _ => True) (.operation fun _ _ => trivial) fun _ =>
      .bind (Q := fun _ _ => True) (.tryCatch ?_) fun _ =>
        .bind (Q := fun _ _ => True) (.tryCatch (.operation fun _ _ => trivial)) fun _ =>
          idle_total.imp (fun _ h => h) fun _ _ _ => trivial
    refine .bind (.forM fun _ _ => .operation fun _ _ => trivial) fun _ => .bind idle_total fun _ =>
      idle_total
  refine hreturns.of_triple (R := fun _ => True) (.pin fun d hd => ?_)
  exact (atomicWrite_triple name bytes d).imp (fun _ h => h) (fun _ _ h => hd.apart h.toApart)
    fun _ _ => trivial

omit [Crypto] in
theorem cleanupOldGenerations_total {contents : Bytes} {g : UInt64} :
    Total (HasFile contents) (cleanupOldGenerations g) fun _ => HasFile contents := by
  have hremove : ∀ {name : Str}, Total (HasFile contents)
      (attempt (operation (Disk.remove name)) : StoreM Unit) fun _ => HasFile contents := by
    intro name
    exact .attempt fun d h => h.apart (apart_remove (Set.mem_univ name))
  refine .bind idle_total fun _ => .contents_bind ?_
  intro d₀ h₀
  refine Total.imp (P := HasFile contents) (Q := fun _ => HasFile contents) (.forM ?_)
    (fun d h => h ▸ h₀) fun _ _ h => h
  intro generation _
  split_ifs with hkept
  · exact .pure fun _ h => h
  · exact .bind hremove fun _ => hremove

omit [Crypto] in
theorem writeBlockBytes_total {contents bytes : Bytes} {cs : ExtTreeMap Str Bytes}
    (hroom : (contents ++ bytes).length < 2 ^ 64) :
    Total (fun d => HasFile contents d ∧ d.chainstate = cs) (forM bytes writeBlockByte)
      fun _ d => HasFile (contents ++ bytes) d ∧ d.chainstate = cs := by
  induction bytes generalizing contents with
  | nil =>
    rw [List.append_nil]
    exact .pure fun _ h => h
  | cons byte bytes ih =>
    rw [List.append_cons] at hroom ⊢
    rw [List.forM_cons]
    refine .bind (Q := fun _ d => HasFile (contents ++ [byte]) d ∧ d.chainstate = cs) ?_ fun _ => ih hroom
    refine .contents_bind ?_
    rintro d₀ ⟨⟨file, hfile, rfl⟩, hcs⟩
    have hone : (file.bytes ++ [byte]).length < 2 ^ 64 := by
      rw [List.length_append] at hroom
      omega
    refine total_throwIf_bind ?_ (.operation ?_)
    · rw [List.length_append, List.length_singleton] at hone
      simp only [Disk.blockFileSize, hfile, Option.map_some, Option.getD_some, ge_iff_le, Nat.not_le]
      exact hone
    · rintro d rfl
      rw [Disk.appendByte, hfile]
      dsimp only
      rw [dif_pos hone]
      exact ⟨⟨_, rfl, rfl⟩, hcs⟩

theorem recordsFile_append (records records' : List StoredBlock) :
    recordsFile (records ++ records') = recordsFile records ++ recordsFile records' :=
  List.flatMap_append

/-- **The blocks that are missing** are appended. -/
theorem appendMissing_total {blocks records : List StoredBlock} {catalog : ExtTreeMap Str IndexEntry}
    {offset : UInt64} {appended : Bool} {cs : ExtTreeMap Str Bytes}
    (hblocks : ∀ b ∈ blocks, Recordable b)
    (hcatalog : ∀ hash, catalog.contains hash = true → ∃ r ∈ records, r.hashHex = .ok hash)
    (hroom : (recordsFile records).length + (recordsFile blocks).length < 2 ^ 64) :
    Total (fun d => HasFile (recordsFile records) d ∧ d.chainstate = cs)
      (appendMissing blocks catalog offset appended)
      fun _ d => ∃ missing, missing.Sublist blocks ∧ HasFile (recordsFile (records ++ missing)) d ∧
        d.chainstate = cs ∧ ∀ b ∈ blocks, ∃ r ∈ records ++ missing, r.hashHex = b.hashHex := by
  induction blocks generalizing records catalog offset appended with
  | nil =>
    refine .pure ?_
    rintro d ⟨hfile, hcs⟩
    refine ⟨[], .slnil, ?_, hcs, List.forall_mem_nil _⟩
    rwa [List.append_nil]
  | cons b blocks ih =>
    obtain ⟨hb, hrest⟩ := List.forall_mem_cons.1 hblocks
    have hhash := hb.canonical.hashHex
    have hsplit : (recordsFile (b :: blocks)).length =
        (recordOf b.encode).length + (recordsFile blocks).length := by
      rw [recordsFile, List.flatMap_cons, List.length_append]
      rfl
    rw [appendMissing]
    refine total_lift_bind hhash ?_
    split_ifs with hcontains
    · obtain ⟨r, hr, hsame⟩ := hcatalog _ hcontains
      refine (ih hrest hcatalog (by omega)).imp (fun _ h => h) ?_
      rintro _ d ⟨missing, hsub, hfile, hcs, hall⟩
      refine ⟨missing, hsub.cons b, hfile, hcs, List.forall_mem_cons.2 ⟨⟨r, ?_, ?_⟩, hall⟩⟩
      · exact List.mem_append_left _ hr
      · rw [hsame, hhash]
    · have hrecord : makeRecordBytes b = .ok (recordOf b.encode) :=
        makeRecordBytes_ok.2 ⟨hb.canonical.serializable, hb.size, rfl⟩
      have hone : recordsFile records ++ recordOf b.encode = recordsFile (records ++ [b]) := by
        rw [recordsFile_append, recordsFile, recordsFile, List.flatMap_singleton]
      have hlength : (recordsFile (records ++ [b])).length =
          (recordsFile records).length + (recordOf b.encode).length := by
        rw [← hone, List.length_append]
      refine total_lift_bind hrecord ?_
      refine .bind (writeBlockBytes_total (by rw [hone]; omega)) fun _ => ?_
      rw [hone]
      have hcatalog' : ∀ hash, (catalog.insertIfNew (hashToDisplayHex (sha256d b.block.header.encode))
          ⟨b.height, offset, UInt64.ofNat ((recordOf b.encode).length - blockRecordHeaderSize),
            hashToDisplayHex (sha256d b.block.header.encode)⟩).contains hash = true →
          ∃ r ∈ records ++ [b], r.hashHex = .ok hash := by
        intro hash hmem
        rw [ExtTreeMap.contains_insertIfNew, Bool.or_eq_true] at hmem
        rcases hmem with heq | hmem
        · have hkey := LawfulEqCmp.eq_of_compare (beq_iff_eq.1 heq)
          exact ⟨b, by simp, hkey ▸ hhash⟩
        · obtain ⟨r, hr, hsame⟩ := hcatalog hash hmem
          exact ⟨r, List.mem_append_left _ hr, hsame⟩
      refine (ih hrest hcatalog' (by omega)).imp (fun _ h => h) ?_
      rintro _ d ⟨missing, hsub, hfile, hcs, hall⟩
      rw [List.append_assoc, List.singleton_append] at hfile hall
      exact ⟨b :: missing, hsub.cons_cons b, hfile, hcs,
        List.forall_mem_cons.2 ⟨⟨b, by simp, rfl⟩, hall⟩⟩

/-- What the scan finds in a file of whole records. -/
theorem scanCatalog_records {records : List StoredBlock} {d : Disk} (hfile : HasFile (recordsFile records) d)
    (hrecords : ∀ b ∈ records, Recordable b) : ∃ file catalog, d.blockFile = some file ∧
      file.bytes = recordsFile records ∧ scanCatalog d.blockFile = .ok catalog ∧
      (∀ b ∈ records, ∀ hash, b.hashHex = .ok hash → ∃ entry, catalog[hash]? = some entry) ∧
      ∀ (hash : Str) (entry : IndexEntry), catalog[hash]? = some entry → ∃ b ∈ records,
        b.hashHex = .ok hash ∧
          readRecordAt file.bytes entry.offset.toNat (some entry.payloadSize) = .ok b := by
  obtain ⟨file, hd, hbytes⟩ := hfile
  obtain ⟨catalog, hscan, -⟩ := scanLoop_ok file.size_lt 0 (.empty file.bytes)
  have hscan' : scanLoop ([] ++ recordsFile records) ([] : Bytes).length ∅ = .ok catalog := hbytes ▸ hscan
  obtain ⟨hall, honly⟩ := scan_records hrecords (hbytes ▸ file.size_lt) hscan'
  refine ⟨file, catalog, hd, hbytes, hd ▸ hscan, hall, ?_⟩
  intro hash entry hfound
  rcases honly hash entry hfound with hempty | ⟨b, hb, hhash, hread⟩
  · rw [ExtTreeMap.getElem?_empty] at hempty
    cases hempty
  · exact ⟨b, hb, hhash, hbytes ▸ hread⟩

/-- The blocks that the scan of whole records finds are the records. -/
theorem mem_of_scan {records found : List StoredBlock} {d : Disk}
    (hfile : HasFile (recordsFile records) d) (hrecords : ∀ b ∈ records, Recordable b)
    (hfound : scanAllBlocks d.blockFile = .ok found) : ∀ b ∈ found, b ∈ records := by
  obtain ⟨file, catalog, hd, -, hscan, -, honly⟩ := scanCatalog_records hfile hrecords
  intro b hb
  rw [hd] at hfound hscan
  obtain ⟨catalog', hscan', hread⟩ := except_bind_ok.1 hfound
  obtain rfl := Except.ok.inj (hscan.symm.trans hscan')
  obtain ⟨entry, hentry, hblock⟩ := mem_of_mapM hread hb
  obtain ⟨hash, hkey⟩ := OrdMap.mem_values.1 hentry
  obtain ⟨r, hr, -, hr'⟩ := honly hash entry hkey
  rwa [Except.ok.inj (hblock.symm.trans hr')]

theorem scanBlockFile_total {P : Disk → Prop} : Total P scanBlockFile
    fun catalog d => P d ∧ scanCatalog d.blockFile = .ok catalog := by
  refine .of_triple (S := fun _ _ => True) (.bind (idle_total (P := P)) fun _ => .contents_bind fun d hd => ?_)
    scanBlockFile_triple
  have hscan : ∃ catalog, scanCatalog d.blockFile = .ok catalog := by
    cases d.blockFile with
    | none => exact ⟨∅, rfl⟩
    | some file =>
      obtain ⟨catalog, hscan, -⟩ := scanLoop_ok file.size_lt 0 (.empty file.bytes)
      exact ⟨catalog, hscan⟩
  obtain ⟨catalog, hscan⟩ := hscan
  rw [hscan]
  exact .pure fun _ _ => trivial

/-- The block file is made of whole records; there may be no file yet. -/
structure Whole (records : List StoredBlock) (d : Disk) : Prop where
  file : (d.blockFile = none ∧ records = []) ∨ HasFile (recordsFile records) d
  recordable : ∀ b ∈ records, Recordable b

theorem appendBlockFile_total {blocks records : List StoredBlock} (hblocks : ∀ b ∈ blocks, Recordable b)
    (hroom : (recordsFile records).length + (recordsFile blocks).length < 2 ^ 64) :
    Total (Whole records) (appendBlockFile blocks)
      fun _ d => ∃ missing, missing.Sublist blocks ∧ HasFile (recordsFile (records ++ missing)) d ∧
        (∀ b ∈ records ++ missing, Recordable b) ∧
        ∀ b ∈ blocks, ∃ r ∈ records ++ missing, r.hashHex = b.hashHex := by
  refine .pin fun d₀ hwhole => ?_
  have hrecordable := hwhole.recordable
  have hend : ∀ d, (∃ missing, missing.Sublist blocks ∧ HasFile (recordsFile (records ++ missing)) d ∧
        d.chainstate = d₀.chainstate ∧ ∀ b ∈ blocks, ∃ r ∈ records ++ missing, r.hashHex = b.hashHex) →
      ∃ missing, missing.Sublist blocks ∧ HasFile (recordsFile (records ++ missing)) d ∧
        (∀ b ∈ records ++ missing, Recordable b) ∧
        ∀ b ∈ blocks, ∃ r ∈ records ++ missing, r.hashHex = b.hashHex := by
    rintro d ⟨missing, hsub, hfile, -, hall⟩
    refine ⟨missing, hsub, hfile, fun b hb => ?_, hall⟩
    rcases List.mem_append.1 hb with hb | hb
    · exact hrecordable b hb
    · exact hblocks b (hsub.subset hb)
  refine .bind scanBlockFile_total fun catalog => .pin ?_
  rintro d ⟨rfl, hscan⟩
  have hopened : HasFile (recordsFile records) d.openBlocks ∧
      ∀ hash, catalog.contains hash = true → ∃ r ∈ records, r.hashHex = .ok hash := by
    rcases hwhole.file with ⟨hnone, rfl⟩ | hfile
    · rw [hnone] at hscan
      obtain rfl := Except.ok.inj hscan
      refine ⟨⟨⟨[], by decide⟩, by rw [Disk.openBlocks, hnone]; rfl, rfl⟩, fun hash h => ?_⟩
      rw [ExtTreeMap.contains_empty] at h
      cases h
    · obtain ⟨file, catalog', hd, hbytes, hscan', -, honly⟩ := scanCatalog_records hfile hrecordable
      obtain rfl := Except.ok.inj (hscan.symm.trans hscan')
      refine ⟨⟨file, by rw [Disk.openBlocks, hd]; rfl, hbytes⟩, fun hash h => ?_⟩
      rw [ExtTreeMap.contains_eq_isSome_getElem?, Option.isSome_iff_exists] at h
      obtain ⟨entry, hentry⟩ := h
      obtain ⟨r, hr, hhash, -⟩ := honly hash entry hentry
      exact ⟨r, hr, hhash⟩
  obtain ⟨hfile, hcatalog⟩ := hopened
  have hopen : Total (fun d' => d' = d) (operation Disk.openBlocks : StoreM Unit)
      fun _ d' => HasFile (recordsFile records) d' ∧ d'.chainstate = d.chainstate := by
    refine .operation ?_
    rintro d' rfl
    exact ⟨hfile, rfl⟩
  refine .bind hopen fun _ => .bind idle_total fun _ => .contents_bind fun d₁ h₁ => ?_
  refine .bind ((appendMissing_total hblocks hcatalog hroom).imp (fun d' h => h ▸ h₁)
    fun _ _ h => h) fun appended => ?_
  refine Total.imp (Q := fun _ d' => ∃ missing, missing.Sublist blocks ∧
    HasFile (recordsFile (records ++ missing)) d' ∧ d'.chainstate = d.chainstate ∧
      ∀ b ∈ blocks, ∃ r ∈ records ++ missing, r.hashHex = b.hashHex) ?_ (fun _ h => h)
    fun _ d' h => hend d' h
  dsimp only
  split_ifs
  · exact .bind idle_total fun _ => .bind idle_total fun _ => idle_total
  · exact .bind idle_total fun _ => idle_total

theorem manifestForGeneration_total {g : UInt64} {blocks records : List StoredBlock} {utxos : UtxoSet}
    (hne : blocks ≠ []) (hblocks : ∀ b ∈ blocks, Recordable b) (hrecords : ∀ b ∈ records, Recordable b)
    (hall : ∀ b ∈ blocks, ∃ r ∈ records, r.hashHex = b.hashHex) :
    Total (HasFile (recordsFile records)) (manifestForGeneration g blocks utxos)
      fun _ => HasFile (recordsFile records) := by
  refine .bind scanBlockFile_total fun catalog => .pin ?_
  rintro d ⟨hfile, hscan⟩
  obtain ⟨file, catalog', -, -, hscan', hfound, -⟩ := scanCatalog_records hfile hrecords
  obtain rfl := Except.ok.inj (hscan.symm.trans hscan')
  have hentries : ∃ entries, blocks.mapM (indexEntry catalog) = .ok entries := by
    refine mapM_of_forall fun b hb => ?_
    obtain ⟨r, hr, hsame⟩ := hall b hb
    have hhash := (hblocks b hb).canonical.hashHex
    obtain ⟨entry, hentry⟩ := hfound r hr _ (hsame.trans hhash)
    exact ⟨{ entry with height := b.height }, except_bind_ok.2 ⟨_, hhash, except_bind_ok.2 ⟨entry,
      orThrow_ok.2 hentry, rfl⟩⟩⟩
  obtain ⟨entries, hentries⟩ := hentries
  have hlast : blocks.getLast? = some (blocks.getLast hne) := List.getLast?_eq_some_getLast hne
  have hhash := (hblocks _ (List.getLast_mem hne)).canonical.hashHex
  refine Total.imp (P := HasFile (recordsFile records)) (Q := fun _ => HasFile (recordsFile records)) ?_
    (fun d' h => h ▸ hfile) fun _ _ h => h
  refine total_lift_bind hentries (total_lift_bind (orThrow_ok.2 hlast) (total_lift_bind hhash ?_))
  refine .bind atomicWrite_total fun _ => .bind atomicWrite_total fun _ => .contents_bind ?_
  intro d₀ h₀
  exact .pure fun d h => h ▸ h₀

/-- **A commit returns** where nothing fails, and leaves whole records. -/
theorem commitChain_total {migrated : Bool} {blocks records : List StoredBlock} {utxos : UtxoSet}
    (hne : blocks ≠ []) (hblocks : ∀ b ∈ blocks, Recordable b)
    (hroom : (recordsFile records).length + (recordsFile blocks).length < 2 ^ 64) :
    Total (Whole records) (commitChain migrated blocks utxos)
      fun _ d => ∃ missing, missing.Sublist blocks ∧ Whole (records ++ missing) d ∧
        HasFile (recordsFile (records ++ missing)) d := by
  refine total_throwIf_bind hne ?_
  refine .bind idle_total fun _ => .bind idle_total fun _ => .bind idle_total fun _ => ?_
  refine .bind (appendBlockFile_total hblocks hroom) fun _ => .contents_bind ?_
  rintro d₁ ⟨missing, hsub, hfile, hrecords, hall⟩
  dsimp only
  refine Total.imp (P := HasFile (recordsFile (records ++ missing)))
    (Q := fun _ => HasFile (recordsFile (records ++ missing))) ?_ (fun d h => h ▸ hfile)
    fun _ d h => ⟨missing, hsub, ⟨.inr h, hrecords⟩, h⟩
  refine .bind (manifestForGeneration_total hne hblocks hrecords hall) fun _ => ?_
  refine .bind atomicWrite_total fun _ => ?_
  split_ifs
  · exact .bind atomicWrite_total fun _ => cleanupOldGenerations_total
  · exact cleanupOldGenerations_total

/-! ## Commits one after the other -/

theorem faithful_of_records {records blocks : List StoredBlock} {d : Disk}
    (hfile : HasFile (recordsFile records) d) (hrecords : ∀ b ∈ records, Recordable b)
    (hinj : ∀ r ∈ records, ∀ b ∈ blocks, r.hashHex = b.hashHex → r = b) : d.Faithful blocks :=
  fun _ hfound r hr b hb hsame => hinj r (mem_of_scan hfile hrecords hfound r hr) b hb hsame

/-- The blocks are told apart by their hashes, can be recorded, and fit in a file. -/
structure Storable (blocks : List StoredBlock) : Prop where
  recordable : ∀ b ∈ blocks, Recordable b
  inj : ∀ a ∈ blocks, ∀ b ∈ blocks, a.hashHex = b.hashHex → a = b
  room : (recordsFile blocks).length < 2 ^ 64

theorem commitChain_kept {migrated : Bool} {blocks records : List StoredBlock} {utxos : UtxoSet}
    (hchain : Chain blocks utxos) (hstorable : Storable (records ++ blocks)) :
    Total (Whole records) (commitChain migrated blocks utxos)
      fun _ d => ∃ missing, missing.Sublist blocks ∧ Whole (records ++ missing) d ∧
        d.Faithful blocks ∧ LoadedFrom d (blocks, utxos) ∧ d.Finds blocks := by
  have hblocks : ∀ b ∈ blocks, Recordable b := fun b hb =>
    hstorable.recordable b (List.mem_append_right _ hb)
  have hroom := hstorable.room
  rw [recordsFile_append, List.length_append] at hroom
  refine .pin fun d₀ hwhole => ?_
  have hspared : Spared d₀.nextGeneration fun _ => True :=
    ⟨fun _ _ _ _ => trivial, fun _ _ _ _ => trivial⟩
  have htotal : Total (fun d => d = d₀) (commitChain migrated blocks utxos) _ :=
    (commitChain_total hchain.ne_nil hblocks hroom).imp (fun d h => h ▸ hwhole) fun _ _ h => h
  refine (htotal.and_triple (commitChain_triple hchain trivial hspared)).imp (fun _ h => h) ?_
  rintro _ d ⟨⟨missing, hsub, hwhole', hfile⟩, hdurable⟩
  have hfaithful : d.Faithful blocks := by
    refine faithful_of_records hfile hwhole'.recordable fun r hr b hb hsame => ?_
    refine hstorable.inj r ?_ b (List.mem_append_right _ hb) hsame
    rcases List.mem_append.1 hr with hr | hr
    · exact List.mem_append_left _ hr
    · exact List.mem_append_right _ (hsub.subset hr)
  obtain ⟨hholds, hfinds⟩ := hdurable hfaithful
  exact ⟨missing, hsub, hwhole', hfaithful, hholds.loadedFrom hchain, hfinds⟩

theorem Storable.sublist {blocks blocks' : List StoredBlock} (h : Storable blocks')
    (hsub : blocks.Sublist blocks') : Storable blocks := by
  have hlength : (recordsFile blocks).length ≤ (recordsFile blocks').length :=
    (hsub.flatMap _).length_le
  exact ⟨fun b hb => h.recordable b (hsub.subset hb), fun a ha b hb =>
    h.inj a (hsub.subset ha) b (hsub.subset hb), hlength.trans_lt h.room⟩

/-! ## Commits that are stopped -/

omit [Crypto] in
theorem idle_ok {m m' : Machine Disk Exn} {x : Unit} (h : idle.run m = .ok x m') :
    m'.disk = m.disk ∧ m'.fails = m.fails ∧ m'.disk ∈ m'.passed := by
  rw [EStateM.run, idle, operation] at h
  split at h
  · cases h
  · obtain ⟨-, rfl⟩ := EStateM.Result.ok.inj h
    exact ⟨rfl, rfl, List.mem_cons_self⟩

theorem appendBlockFile_passed {blocks : List StoredBlock} {m m' : Machine Disk Exn} {x : Unit}
    (h : (appendBlockFile blocks).run m = .ok x m') : m'.disk ∈ m'.passed := by
  simp only [appendBlockFile, run_bind_ok] at h
  obtain ⟨catalog, m₁, -, _, m₂, -, _, m₃, -, d, m₄, -, appended, m₅, -, h⟩ := h
  split_ifs at h
  · simp only [run_bind_ok] at h
    obtain ⟨_, _, -, _, _, -, h⟩ := h
    exact (idle_ok h).2.2
  · simp only [run_bind_ok] at h
    obtain ⟨_, _, -, h⟩ := h
    exact (idle_ok h).2.2

/-- **A commit may be stopped** when its blocks are in the file and nothing else has been written. -/
theorem commitChain_stopped (migrated : Bool) {blocks records : List StoredBlock} {utxos : UtxoSet}
    {d : Disk} (hchain : Chain blocks utxos) (hstorable : Storable (records ++ blocks))
    (hwhole : Whole records d) : ∃ d' missing,
      d' ∈ (final ((commitChain migrated blocks utxos).run (.start d fun _ => none))).passed ∧
        Grows d d' ∧ missing.Sublist blocks ∧ Whole (records ++ missing) d' ∧ d'.Faithful blocks := by
  have hblocks : ∀ b ∈ blocks, Recordable b := fun b hb =>
    hstorable.recordable b (List.mem_append_right _ hb)
  have hroom := hstorable.room
  rw [recordsFile_append, List.length_append] at hroom
  -- the run in which nothing fails
  have htotal : Total (Whole records) (commitChain migrated blocks utxos) _ :=
    commitChain_total hchain.ne_nil hblocks hroom
  obtain ⟨_, m', hrun, -⟩ := htotal (.start d fun _ => none) hwhole fun _ => rfl
  have hsplit := hrun
  rw [commitChain_eq] at hsplit
  simp only [run_bind_ok, throwIf_run_ok] at hsplit
  obtain ⟨_, _, ⟨-, rfl⟩, _, m₁, h₁, _, m₂, h₂, _, m₃, h₃, _, m₄, happend, hfinish⟩ := hsplit
  have hdisk : m₃.disk = d := (idle_ok h₃).1.trans ((idle_ok h₂).1.trans (idle_ok h₁).1)
  have hfails : m₃.fails = fun _ => none :=
    (idle_ok h₃).2.1.trans ((idle_ok h₂).2.1.trans (idle_ok h₁).2.1)
  -- the blocks are in the file
  obtain ⟨_, _, happend', ⟨missing, hsub, hfile, hrecords, -⟩, -⟩ :=
    appendBlockFile_total hblocks hroom m₃ (hdisk ▸ hwhole) fun n => by rw [hfails]
  rw [happend] at happend'
  obtain ⟨-, rfl⟩ := EStateM.Result.ok.inj happend'
  have hgrows : Meets _ _ (appendBlockFile blocks) m₃ := appendBlockFile_grows blocks m₃ (.refl m₃.disk)
  rw [Meets, happend, hdisk] at hgrows
  -- and that disk has been passed
  have hextends : Meets _ _ (finishCommit migrated blocks utxos) m₄ :=
    finishCommit_extends m₄ (.refl m₄.disk)
  rw [Meets, hfinish] at hextends
  obtain ⟨-, -, ds, hpassed, -⟩ := hextends
  have hmem : m₄.disk ∈ m'.passed :=
    hpassed ▸ List.mem_append_right ds (appendBlockFile_passed happend)
  refine ⟨m₄.disk, missing, hrun ▸ hmem, hgrows.1, hsub, ⟨.inr hfile, hrecords⟩, ?_⟩
  refine faithful_of_records hfile hrecords fun r hr b hb hsame => ?_
  refine hstorable.inj r ?_ b (List.mem_append_right _ hb) hsame
  exact (List.mem_append.1 hr).elim (List.mem_append_left _) fun hr =>
    List.mem_append_right _ (hsub.subset hr)

end

end BinaryCoin
