/-
  BinaryCoin — storage.cpp: commits that are interrupted.

  Wherever `commit` is stopped or throws, the manifest names a whole generation:
  the one of the chain before, or the one of the new chain.
-/
import BinaryCoin.StoreFiles

namespace BinaryCoin

open Crash Cursor Std Text

/-! ## What a disk holds -/

theorem exists_of_mapM {A B : Type} {f : A → Except Exn B} {as : List A} {bs : List B}
    (h : as.mapM f = .ok bs) : ∀ a ∈ as, ∃ b, f a = .ok b := by
  induction as generalizing bs with
  | nil => exact List.forall_mem_nil _
  | cons a as ih =>
    simp only [List.mapM_cons, except_bind_ok] at h
    obtain ⟨b, hb, bs', hbs', -⟩ := h
    exact List.forall_mem_cons.2 ⟨⟨b, hb⟩, ih hbs'⟩

section
variable [Crypto] {d d' : Disk} {m : Manifest} {c : List StoredBlock × UtxoSet} {g : UInt64}

/-- The manifest, and what it names. -/
structure Disk.Reads (d : Disk) (m : Manifest) (c : List StoredBlock × UtxoSet) : Prop where
  manifest : ∃ text, d.chainstate[manifestName]? = some text ∧ parseManifestText text = .ok m
  index : ∃ text entries, d.chainstate[m.indexFile]? = some text ∧
    sha256Hex text = m.indexSha256 ∧ parseIndexText text = .ok entries ∧
    loadIndexedChain d.blockFile entries = .ok c.1
  utxo : ∃ text, d.chainstate[m.utxoFile]? = some text ∧ sha256Hex text = m.utxoSha256 ∧
    parseUtxoText text m.height m.bestblock = .ok c.2
  tip : ∃ last, c.1.getLast? = some last ∧ last.height = m.height ∧ last.hashHex = .ok m.bestblock

theorem loadManifest_ok : d.loadManifest = .ok (m, c) ↔ d.Reads m c := by
  obtain ⟨blocks, utxos⟩ := c
  simp only [Disk.loadManifest, Disk.loadManifestGeneration, Disk.read, if_true, except_bind_ok,
    orThrow_ok, throwIf_ok, except_pure_ok, not_not]
  constructor
  · rintro ⟨text, htext, manifest, hparse, r, ⟨index, hindex, utxo, hutxo, _, hindexSha, _, hutxoSha,
      entries, hentries, loaded, hloaded, last, hlast, _, hheight, hash, hhash, _, hbest, coins, hcoins,
      rfl⟩, heq⟩
    obtain ⟨rfl, rfl, rfl⟩ : manifest = m ∧ loaded = blocks ∧ coins = utxos := by
      simpa [Prod.ext_iff] using heq
    exact ⟨⟨text, htext, hparse⟩, ⟨index, entries, hindex, hindexSha, hentries, hloaded⟩,
      ⟨utxo, hutxo, hutxoSha, hcoins⟩, last, hlast, hheight, hbest ▸ hhash⟩
  · rintro ⟨⟨text, htext, hparse⟩, ⟨index, entries, hindex, hindexSha, hentries, hloaded⟩,
      ⟨utxo, hutxo, hutxoSha, hcoins⟩, last, hlast, hheight, hhash⟩
    exact ⟨text, htext, m, hparse, _, ⟨index, hindex, utxo, hutxo, (), hindexSha, (), hutxoSha,
      entries, hentries, blocks, hloaded, last, hlast, (), hheight, _, hhash, (), rfl, utxos, hcoins,
      rfl⟩, rfl⟩

/-- The manifest names the files of a generation, and they hold a chain and its coins. -/
structure HoldsAt (g : UInt64) (d : Disk) (c : List StoredBlock × UtxoSet) : Prop where
  reads : ∃ m, d.Reads m c ∧ m.generation = g ∧ m.indexFile = indexName g ∧ m.utxoFile = utxoName g

theorem HoldsAt.load (h : HoldsAt g d c) : d.load = .ok c := by
  obtain ⟨m, hreads, -⟩ := h.reads
  rw [Disk.load, loadManifest_ok.2 hreads]

theorem HoldsAt.nextGeneration (h : HoldsAt g d c) : d.nextGeneration = g + 1 := by
  obtain ⟨m, hreads, hgeneration, -⟩ := h.reads
  obtain ⟨text, htext, hparse⟩ := hreads.manifest
  simp only [Disk.nextGeneration, htext, hparse, hgeneration]

theorem loadIndexedChain_append {file file' : BlockFile} {entries : List IndexEntry}
    {blocks : List StoredBlock} (hle : file.bytes <+: file'.bytes)
    (h : loadIndexedChain (some file) entries = .ok blocks) :
    loadIndexedChain (some file') entries = .ok blocks := by
  obtain ⟨more, hmore⟩ := hle
  simp only [loadIndexedChain, except_bind_ok, orThrow_ok] at h ⊢
  obtain ⟨_, hfile, hblocks⟩ := h
  obtain rfl := Option.some.inj hfile
  refine ⟨file', rfl, mapM_of_imp ?_ hblocks⟩
  intro entry block hblock
  simp only [loadIndexed, except_bind_ok] at hblock ⊢
  obtain ⟨stored, hstored, hrest⟩ := hblock
  exact ⟨stored, hmore ▸ readRecordAt_append hstored, hrest⟩

/-- What is held stays there while the block file grows and the files that are named stay. -/
theorem HoldsAt.frame (h : HoldsAt g d c)
    (hextends : Extends d d')
    (hmanifest : d'.chainstate[manifestName]? = d.chainstate[manifestName]?)
    (hindex : d'.chainstate[indexName g]? = d.chainstate[indexName g]?)
    (hutxo : d'.chainstate[utxoName g]? = d.chainstate[utxoName g]?) : HoldsAt g d' c := by
  obtain ⟨m, hreads, hgeneration, hindexName, hutxoName⟩ := h.reads
  refine ⟨m, ⟨?_, ?_, ?_, hreads.tip⟩, hgeneration, hindexName, hutxoName⟩
  · rw [hmanifest]
    exact hreads.manifest
  · obtain ⟨text, entries, htext, hsha, hentries, hloaded⟩ := hreads.index
    refine ⟨text, entries, ?_, hsha, hentries, ?_⟩
    · rw [hindexName] at htext ⊢
      rwa [hindex]
    · cases hd : d.blockFile with
      | none =>
        rw [hd] at hloaded
        cases hloaded
      | some file =>
        obtain ⟨file', hfile', hle⟩ := hextends file hd
        rw [hd] at hloaded
        rw [hfile']
        exact loadIndexedChain_append hle hloaded
  · rw [hutxoName, hutxo, ← hutxoName]
    exact hreads.utxo

theorem HoldsAt.grows (h : HoldsAt g d c) (hgrows : Grows d d') : HoldsAt g d' c := by
  refine h.frame hgrows.file ?_ ?_ ?_ <;> rw [hgrows.chainstate]

theorem HoldsAt.apart {names : Set Str} (h : HoldsAt g d c) (hapart : Apart names d d')
    (hmanifest : manifestName ∉ names) (hindex : indexName g ∉ names) (hutxo : utxoName g ∉ names) :
    HoldsAt g d' c :=
  h.frame hapart.extended (hapart.chainstate _ hmanifest) (hapart.chainstate _ hindex)
    (hapart.chainstate _ hutxo)

/-! ## The next generation -/

/-- The records under the hashes of the blocks are those of the blocks. -/
def Disk.Faithful (d : Disk) (blocks : List StoredBlock) : Prop :=
  ∀ records, scanAllBlocks d.blockFile = .ok records →
    ∀ record ∈ records, ∀ block ∈ blocks, record.hashHex = block.hashHex → record = block

/-- The scan finds the blocks. -/
def Disk.Finds (d : Disk) (blocks : List StoredBlock) : Prop :=
  ∀ records, scanAllBlocks d.blockFile = .ok records → ∀ block ∈ blocks, block ∈ records

theorem mem_of_catalog {file : BlockFile} {catalog : ExtTreeMap Str IndexEntry}
    {records : List StoredBlock} {hash : Str} {entry : IndexEntry} {record : StoredBlock}
    (hscan : scanCatalog (some file) = .ok catalog) (hrecords : scanAllBlocks (some file) = .ok records)
    (hfound : catalog[hash]? = some entry)
    (hread : readRecordAt file.bytes entry.offset.toNat (some entry.payloadSize) = .ok record) :
    record ∈ records := by
  obtain ⟨catalog', hscan', hvalues⟩ := except_bind_ok.1 hrecords
  obtain rfl := Except.ok.inj (hscan.symm.trans hscan')
  exact mem_mapM_of_mem hvalues (OrdMap.mem_values.2 ⟨hash, hfound⟩) hread

theorem Disk.Faithful.read {file : BlockFile} {catalog : ExtTreeMap Str IndexEntry}
    {blocks : List StoredBlock} {block : StoredBlock} {hash : Str} {entry : IndexEntry}
    (h : d.Faithful blocks) (hfile : d.blockFile = some file)
    (hscan : scanCatalog d.blockFile = .ok catalog) (hblock : block ∈ blocks)
    (hhash : block.hashHex = .ok hash) (hfound : catalog[hash]? = some entry) :
    readRecordAt file.bytes entry.offset.toNat (some entry.payloadSize) = .ok block := by
  obtain ⟨record, hread, hrecord⟩ := (entered_of_scan (hfile ▸ hscan) hfound).block
  obtain ⟨records, hrecords, -⟩ := scanAllBlocks_ok d.blockFile
  have hmem : record ∈ records := mem_of_catalog (hfile ▸ hscan) (hfile ▸ hrecords) hfound hread
  rw [hread, h records hrecords record hmem block hblock (hrecord.trans hhash.symm)]

/-- With a longer block file, less is faithful and more is found. -/
theorem Disk.Faithful.of_extends {blocks : List StoredBlock} (h : d'.Faithful blocks)
    (hextends : Extends d d') : d.Faithful blocks := by
  intro records hrecords record hrecord
  obtain ⟨records', hrecords', -⟩ := scanAllBlocks_ok d'.blockFile
  cases hfile : d.blockFile with
  | none =>
    rw [hfile] at hrecords
    obtain rfl : [] = records := Except.ok.inj hrecords
    cases hrecord
  | some file =>
    obtain ⟨file', hfile', hle⟩ := hextends file hfile
    exact h records' hrecords' record
      (scanAllBlocks_append hle (hfile ▸ hrecords) (hfile' ▸ hrecords') hrecord)

theorem Disk.Finds.mono {blocks : List StoredBlock} (h : d.Finds blocks) (hextends : Extends d d') :
    d'.Finds blocks := by
  intro records' hrecords' block hblock
  obtain ⟨records, hrecords, -⟩ := scanAllBlocks_ok d.blockFile
  have hmem := h records hrecords block hblock
  cases hfile : d.blockFile with
  | none =>
    rw [hfile] at hrecords
    obtain rfl : [] = records := Except.ok.inj hrecords
    cases hmem
  | some file =>
    obtain ⟨file', hfile', hle⟩ := hextends file hfile
    exact scanAllBlocks_append hle (hfile ▸ hrecords) (hfile' ▸ hrecords') hmem

/-- The files of a generation have been written, and the manifest has been made. -/
structure Prepared (g : UInt64) (c : List StoredBlock × UtxoSet) (m : Manifest) (d : Disk) : Prop where
  generation : m.generation = g
  indexFile : m.indexFile = indexName g
  utxoFile : m.utxoFile = utxoName g
  index : ∃ catalog entries, scanCatalog d.blockFile = .ok catalog ∧
    c.1.mapM (indexEntry catalog) = .ok entries ∧
    d.chainstate[indexName g]? = some (makeIndexText entries) ∧
    m.indexSha256 = sha256Hex (makeIndexText entries)
  utxo : d.chainstate[utxoName g]? = some (makeUtxoText c.2 m.height m.bestblock) ∧
    m.utxoSha256 = sha256Hex (makeUtxoText c.2 m.height m.bestblock)
  tip : ∃ last, c.1.getLast? = some last ∧ last.height = m.height ∧ last.hashHex = .ok m.bestblock

theorem Prepared.apart {names : Set Str} (h : Prepared g c m d) (hapart : Apart names d d')
    (hindex : indexName g ∉ names) (hutxo : utxoName g ∉ names) : Prepared g c m d' := by
  obtain ⟨catalog, entries, hscan, hentries, htext, hsha⟩ := h.index
  refine ⟨h.generation, h.indexFile, h.utxoFile, ⟨catalog, entries, ?_, hentries, ?_, hsha⟩,
    ⟨?_, h.utxo.2⟩, h.tip⟩
  · rwa [hapart.blockFile]
  · rwa [hapart.chainstate _ hindex]
  · rw [hapart.chainstate _ hutxo]
    exact h.utxo.1

theorem StoredBlock.hexDigest {block : StoredBlock} {hash : Str} (h : block.hashHex = .ok hash) :
    HexDigest hash :=
  (BlockHeader.hashHex_isDisplayHex h).hexDigest

/-- **The index that is written** reads the blocks that it was made for. -/
theorem index_reads {file : BlockFile} {catalog : ExtTreeMap Str IndexEntry}
    {blocks : List StoredBlock} {entries : List IndexEntry} (hfaithful : d.Faithful blocks)
    (hfile : d.blockFile = some file) (hscan : scanCatalog d.blockFile = .ok catalog)
    (hentries : blocks.mapM (indexEntry catalog) = .ok entries) :
    entries.mapM (loadIndexed file.bytes) = .ok blocks ∧
      entries.map IndexEntry.height = blocks.map StoredBlock.height ∧
      ∀ entry ∈ entries, HexDigest entry.hash ∧ entry.payloadSize.toNat ≤ maxBlockRecordSize := by
  have hone : ∀ block ∈ blocks, ∀ entry, indexEntry catalog block = .ok entry →
      loadIndexed file.bytes entry = .ok block ∧ entry.height = block.height ∧
        HexDigest entry.hash ∧ entry.payloadSize.toNat ≤ maxBlockRecordSize := by
    intro block hblock entry hentry
    simp only [indexEntry, except_bind_ok, orThrow_ok, except_pure_ok] at hentry
    obtain ⟨hash, hhash, found, hfound, rfl⟩ := hentry
    have hread := hfaithful.read hfile hscan hblock hhash hfound
    have hkey := (entered_of_scan (hfile ▸ hscan) hfound).key
    refine ⟨?_, rfl, hkey ▸ StoredBlock.hexDigest hhash, payloadSize_le hread⟩
    simp only [loadIndexed, except_bind_ok, throwIf_ok, not_not, except_pure_ok]
    exact ⟨block, hread, (), rfl, hash, hhash, (), hkey.symm, rfl⟩
  clear hfaithful hscan
  induction blocks generalizing entries with
  | nil =>
    obtain rfl := except_pure_ok.1 hentries
    exact ⟨rfl, rfl, by simp⟩
  | cons block blocks ih =>
    simp only [List.mapM_cons, except_bind_ok, except_pure_ok] at hentries
    obtain ⟨entry, hentry, rest, hrest, rfl⟩ := hentries
    obtain ⟨hblock, hblocks⟩ := List.forall_mem_cons.1 hone
    obtain ⟨hloaded, hheight, hok⟩ := hblock entry hentry
    obtain ⟨hmapM, hheights, hall⟩ := ih hrest hblocks
    refine ⟨?_, by rw [List.map_cons, List.map_cons, hheight, hheights],
      List.forall_mem_cons.2 ⟨hok, hall⟩⟩
    simp only [List.mapM_cons, except_bind_ok, except_pure_ok]
    exact ⟨block, hloaded, blocks, hmapM, rfl⟩

theorem Chain.utxoOk {blocks : List StoredBlock} {u : UtxoSet} (h : Chain blocks u) : UtxoOk u := by
  obtain ⟨htotal, hnonneg⟩ := h.total
  refine ⟨?_, ?_⟩
  · rintro ⟨o, coin⟩ hentry
    have hmem : o ∈ u := by
      rw [ExtTreeMap.mem_iff_isSome_getElem?, OrdMap.mem_toList.1 hentry]
      rfl
    exact (h.utxos_canonical o hmem).hexDigest
  · rintro ⟨o, coin⟩ hentry
    have hcoin := OrdMap.mem_toList.1 hentry
    have hle := OrdMap.sum_le_total hnonneg (List.nodup_singleton o)
    rw [List.map_singleton, List.sum_singleton, hcoin] at hle
    have hmax : subsidySum (blocks.length - 1) ≤ maxMoney := by
      have hlength := h.length_le
      exact subsidySum_le (by omega)
    exact moneyRange_iff.2 ⟨hnonneg o coin hcoin, hle.trans (le_of_eq_of_le htotal hmax)⟩

instance (text : Str) : Decidable (Visible text) :=
  inferInstanceAs (Decidable (∀ c ∈ text, 32 < c))

omit [Crypto] in
theorem visible_generationName {name : String} {g : UInt64} (h : Visible (str name)) :
    Visible (generationName name g) := by
  intro c hc
  rw [generationName, List.mem_append, List.mem_append] at hc
  rcases hc with (hc | hc) | hc
  · exact h c hc
  · rw [zeroFill, List.mem_append] at hc
    rcases hc with hc | hc
    · rw [List.eq_of_mem_replicate hc]
      decide
    · exact visible_decimal _ c hc
  · have hends : Visible (str ".tsv") := by decide +kernel
    exact hends c hc

theorem Prepared.manifest_text (h : Prepared g c m d) :
    parseManifestText (makeManifestText m) = .ok m := by
  obtain ⟨last, -, -, hbest⟩ := h.tip
  obtain ⟨_, entries, _, _, _, hindexSha⟩ := h.index
  have hname : Visible (str "block-index-v1-") ∧ Visible (str "utxo-v1-") := by decide +kernel
  refine parseManifestText_make ?_
  simp only [Manifest.texts, List.forall_mem_cons, List.not_mem_nil, false_implies, implies_true,
    and_true, h.indexFile, h.utxoFile, h.utxo.2, hindexSha]
  have hle : newline ≤ 32 := by decide
  exact ⟨(StoredBlock.hexDigest hbest).visible.notMem hle, (visible_generationName hname.1).notMem hle,
    (visible_bytesToHex _).notMem hle, (visible_generationName hname.2).notMem hle,
    (visible_bytesToHex _).notMem hle⟩

theorem Prepared.blockFile (h : Prepared g c m d) (hchain : Chain c.1 c.2) :
    ∃ file, d.blockFile = some file := by
  obtain ⟨catalog, entries, hscan, hentries, -⟩ := h.index
  cases hd : d.blockFile with
  | some file => exact ⟨file, rfl⟩
  | none =>
    rw [hd] at hscan
    obtain rfl := Except.ok.inj hscan
    obtain ⟨genesis, rest, hcons, -⟩ := hchain.genesis_head
    simp only [hcons, List.mapM_cons, indexEntry, except_bind_ok, orThrow_ok] at hentries
    obtain ⟨_, ⟨hash, -, found, hfound, -⟩, -⟩ := hentries
    rw [ExtTreeMap.getElem?_empty] at hfound
    cases hfound

/-- **A manifest of what has been prepared** makes the disk hold it. -/
theorem Prepared.holds (h : Prepared g c m d) (hchain : Chain c.1 c.2)
    (hmanifest : d.chainstate[manifestName]? = some (makeManifestText m))
    (hfaithful : d.Faithful c.1) : HoldsAt g d c := by
  obtain ⟨file, hfile⟩ := h.blockFile hchain
  obtain ⟨catalog, entries, hscan, hentries, hindex, hindexSha⟩ := h.index
  obtain ⟨last, hlast, hheight, hbest⟩ := h.tip
  obtain ⟨hloaded, hheights, hall⟩ := index_reads hfaithful hfile hscan hentries
  have hlength : entries.length = c.1.length := by simpa using congrArg List.length hheights
  have hne : entries ≠ [] := by
    intro hnil
    rw [hnil] at hlength
    exact hchain.ne_nil (List.length_eq_zero_iff.1 hlength.symm)
  have hindexOk : IndexOk entries := by
    refine ⟨?_, fun entry hentry => (hall entry hentry).1, fun entry hentry => (hall entry hentry).2⟩
    intro i hi
    have hget : (entries.map IndexEntry.height)[i]? = (c.1.map StoredBlock.height)[i]? := by
      rw [hheights]
    rw [List.getElem?_map, List.getElem?_map, List.getElem?_eq_getElem hi] at hget
    obtain ⟨block, hblock, heq⟩ := Option.map_eq_some_iff.1 hget.symm
    rw [← heq]
    exact hchain.height i block hblock
  refine ⟨m, ⟨⟨_, hmanifest, h.manifest_text⟩, ⟨_, entries, ?_, hindexSha.symm,
    parseIndexText_make hne hindexOk, ?_⟩, ⟨_, ?_, h.utxo.2.symm, ?_⟩, h.tip⟩, h.generation,
    h.indexFile, h.utxoFile⟩
  · rw [h.indexFile]
    exact hindex
  · rw [hfile]
    exact hloaded
  · rw [h.utxoFile]
    exact h.utxo.1
  · exact parseUtxoText_make m.height hchain.utxoOk (StoredBlock.hexDigest hbest)

theorem Prepared.finds (h : Prepared g c m d) (hchain : Chain c.1 c.2) (hfaithful : d.Faithful c.1) :
    d.Finds c.1 := by
  obtain ⟨file, hfile⟩ := h.blockFile hchain
  obtain ⟨catalog, entries, hscan, hentries, -⟩ := h.index
  intro records hrecords block hblock
  obtain ⟨entry, hentry⟩ := exists_of_mapM hentries block hblock
  simp only [indexEntry, except_bind_ok, orThrow_ok, except_pure_ok] at hentry
  obtain ⟨hash, hhash, found, hfound, -⟩ := hentry
  exact mem_of_catalog (hfile ▸ hscan) (hfile ▸ hrecords) hfound
    (hfaithful.read hfile hscan hblock hhash hfound)

/-! ## `manifest_for_generation` -/

/-- The files that are written under a generation. -/
def generationFiles (g : UInt64) : Set Str :=
  {indexName g, temporary (indexName g), utxoName g, temporary (utxoName g)}

omit [Crypto] in
theorem subset_generationFiles (g : UInt64) :
    ({indexName g, temporary (indexName g)} : Set Str) ⊆ generationFiles g ∧
      ({utxoName g, temporary (utxoName g)} : Set Str) ⊆ generationFiles g := by
  constructor
  · rintro other (rfl | rfl)
    · exact .inl rfl
    · exact .inr (.inl rfl)
  · rintro other (rfl | rfl)
    · exact .inr (.inr (.inl rfl))
    · exact .inr (.inr (.inr rfl))

omit [Crypto] in
/-- The rule of `atomic_write` for a file that may be written. -/
theorem atomicWrite_within {names : Set Str} {name : Str} {bytes : Bytes} {d₀ : Disk} {P : Disk → Prop}
    (hP : ∀ d, P d → Apart names d₀ d) (hname : name ∈ names) (htemporary : temporary name ∈ names) :
    Triple P (atomicWrite name bytes) (fun _ d' => ∃ d, P d ∧ Replaced name bytes d d')
      (Apart names d₀) := by
  have hsub : ({name, temporary name} : Set Str) ⊆ names := by
    rintro other (rfl | rfl)
    · exact hname
    · exact htemporary
  refine .pin fun d hd => (atomicWrite_triple name bytes d).imp (fun _ h => h) ?_ ?_
  · intro _ d' h
    exact ⟨d, hd, h⟩
  · rintro d' (h | h)
    · exact (hP d hd).trans (h.mono fun other hother => hother ▸ htemporary)
    · exact (hP d hd).trans (h.toApart.mono hsub)

theorem manifestForGeneration_triple (g : UInt64) (blocks : List StoredBlock) (utxos : UtxoSet)
    (d₀ : Disk) : Triple (fun d => d = d₀) (manifestForGeneration g blocks utxos)
      (fun m d => Prepared g (blocks, utxos) m d ∧ Apart (generationFiles g) d₀ d)
      (Apart (generationFiles g) d₀) := by
  have hstart : ∀ d, d = d₀ → Apart (generationFiles g) d₀ d := by
    rintro d rfl
    exact .refl _ _
  refine .bind (scanBlockFile_triple.imp (fun _ h => h) (fun _ _ h => h) hstart) fun catalog => ?_
  refine triple_lift_bind (fun d h => hstart d h.1) fun entries hentries => ?_
  refine triple_lift_bind (fun d h => hstart d h.1) fun last hlast => ?_
  refine triple_lift_bind (fun d h => hstart d h.1) fun hash hhash => ?_
  refine .bind (atomicWrite_within (fun d h => hstart d h.1) (.inl rfl) (.inr (.inl rfl))) fun _ => ?_
  refine .bind (atomicWrite_within ?_ (.inr (.inr (.inl rfl))) (.inr (.inr (.inr rfl)))) fun _ => ?_
  · rintro d ⟨d₁, ⟨rfl, -⟩, hreplaced⟩
    exact hreplaced.toApart.mono (subset_generationFiles g).1
  refine .contents_bind ?_
  rintro d₂ ⟨d₁, ⟨d, ⟨rfl, hscan⟩, hindex⟩, hutxo⟩
  have hapart : Apart (generationFiles g) d d₂ :=
    (hindex.toApart.mono (subset_generationFiles g).1).trans
      (hutxo.toApart.mono (subset_generationFiles g).2)
  refine .pure ?_ fun d' h => h ▸ hapart
  rintro d' rfl
  refine ⟨⟨rfl, rfl, rfl, ⟨catalog, entries, ?_, hentries, ?_, rfl⟩, ⟨hutxo.file, rfl⟩,
    last, orThrow_ok.1 hlast, rfl, hhash⟩, hapart⟩
  · rw [hapart.blockFile]
    exact hscan
  · have hne : indexName g ∉ ({utxoName g, temporary (utxoName g)} : Set Str) := by
      rintro (h | h)
      · exact indexName_ne_utxoName g g h
      · exact (StoreName.index g).ne_temporary h
    rw [hutxo.chainstate _ hne]
    exact hindex.file

/-! ## `commit` -/

/-- The names that are not of the current generation. -/
def otherNames (g : UInt64) : Set Str :=
  {name | name ≠ manifestName ∧ name ≠ indexName g ∧ name ≠ utxoName g}

/-- What the disk holds after the commit point. -/
def Durable (g : UInt64) (c : List StoredBlock × UtxoSet) (d : Disk) : Prop :=
  d.Faithful c.1 → HoldsAt g d c ∧ d.Finds c.1

theorem Durable.apart (h : Durable g c d) (hapart : Apart (otherNames g) d d') :
    Durable g c d' := by
  intro hfaithful
  obtain ⟨hholds, hfinds⟩ := h (hfaithful.of_extends hapart.extended)
  exact ⟨hholds.apart hapart (fun h => h.1 rfl) (fun h => h.2.1 rfl) fun h => h.2.2 rfl,
    hfinds.mono hapart.extended⟩

omit [Crypto] in
theorem cleanupOldGenerations_triple {g : UInt64} {P : Disk → Prop}
    (hP : ∀ d d', P d → Apart (otherNames g) d d' → P d') :
    Triple P (cleanupOldGenerations g) (fun _ => P) P := by
  have hremove : ∀ {name : Str}, name ∈ otherNames g → Triple P
      (attempt (operation (Disk.remove name)) : StoreM Unit) (fun _ => P) P := by
    intro name hname
    exact .attempt (fun d h => hP d _ h (apart_remove hname)) fun _ h => h
  refine .bind (Q := fun _ => P) (.idle (fun _ h => h) fun _ h => h) fun _ => .contents_bind ?_
  intro d₀ h₀
  refine Triple.imp (P := P) (Q := fun _ => P) (R := P) (.forM ?_ fun _ h => h) (fun d h => h ▸ h₀)
    (fun _ _ h => h) fun _ h => h
  intro generation _
  split_ifs with hkept
  · exact .pure (fun _ h => h) fun _ h => h
  · have hne : generation ≠ g := fun h => hkept (.inl h)
    refine .bind (hremove ?_) fun _ => hremove ?_
    · exact ⟨indexName_ne_manifestName _, fun h => hne (indexName_inj.1 h), indexName_ne_utxoName _ _⟩
    · exact ⟨utxoName_ne_manifestName _, fun h => indexName_ne_utxoName _ _ h.symm,
        fun h => hne (utxoName_inj.1 h)⟩

omit [Crypto] in
theorem Grows.nextGeneration (h : Grows d d') : d'.nextGeneration = d.nextGeneration := by
  simp only [Disk.nextGeneration, Disk.availableGenerations, h.chainstate]

/-- What is kept by all that comes before the commit point of a generation. -/
structure Spared (g : UInt64) (I : Disk → Prop) : Prop where
  grows : ∀ d d', I d → Grows d d' → I d'
  apart : ∀ d d', I d → Apart (insert (temporary manifestName) (generationFiles g)) d d' → I d'

theorem Prepared.durable (h : Prepared g c m d) (hchain : Chain c.1 c.2)
    (hreplaced : Replaced manifestName (makeManifestText m) d d') : Durable g c d' := by
  have hindex : indexName g ∉ ({manifestName, temporary manifestName} : Set Str) := by
    rintro (h | h)
    · exact indexName_ne_manifestName g h
    · exact (StoreName.index g).ne_temporary h
  have hutxo : utxoName g ∉ ({manifestName, temporary manifestName} : Set Str) := by
    rintro (h | h)
    · exact utxoName_ne_manifestName g h
    · exact (StoreName.utxo g).ne_temporary h
  intro hfaithful
  have hprepared := h.apart hreplaced.toApart hindex hutxo
  exact ⟨hprepared.holds hchain hreplaced.file hfaithful, hprepared.finds hchain hfaithful⟩

omit [Crypto] in
/-- The names of the marker of a migration. -/
theorem marker_otherNames (g : UInt64) : ({str "migrated-from-chain-v3",
    temporary (str "migrated-from-chain-v3")} : Set Str) ⊆ otherNames g := by
  rintro other (rfl | rfl)
  · refine ⟨by decide, ?_, ?_⟩
    · intro h
      have hhead := congrArg List.head? h
      rw [head?_indexName] at hhead
      exact absurd hhead (by decide)
    · intro h
      have hhead := congrArg List.head? h
      rw [head?_utxoName] at hhead
      exact absurd hhead (by decide)
  · exact ⟨fun h => StoreName.manifest.ne_temporary h.symm,
      fun h => (StoreName.index g).ne_temporary h.symm, fun h => (StoreName.utxo g).ne_temporary h.symm⟩

/-- **A commit**: before its commit point it keeps what is spared, and from then on the disk holds
    the new chain. -/
theorem commitChain_triple {migrated : Bool} {blocks : List StoredBlock} {utxos : UtxoSet}
    {I : Disk → Prop} {d₀ : Disk} (hchain : Chain blocks utxos) (hI : I d₀)
    (hspared : Spared d₀.nextGeneration I) :
    Triple (fun d => d = d₀) (commitChain migrated blocks utxos)
      (fun _ => Durable d₀.nextGeneration (blocks, utxos))
      (fun d => I d ∨ Durable d₀.nextGeneration (blocks, utxos) d) := by
  have hkeep : ∀ d, Grows d₀ d → I d := fun d h => hspared.grows d₀ d hI h
  have hidle : Triple (Grows d₀) idle (fun _ => Grows d₀)
      (fun d => I d ∨ Durable d₀.nextGeneration (blocks, utxos) d) :=
    .idle (fun _ h => h) fun d h => .inl (hkeep d h)
  refine triple_throwIf_bind (fun d h => .inl (h ▸ hI)) fun _ => ?_
  refine Triple.imp (P := Grows d₀) (Q := fun _ => Durable d₀.nextGeneration (blocks, utxos))
    (R := fun d => I d ∨ Durable d₀.nextGeneration (blocks, utxos) d) ?_ (fun d h => h ▸ .refl d₀)
    (fun _ _ h => h) fun _ h => h
  refine .bind hidle fun _ => .bind hidle fun _ => .bind hidle fun _ => ?_
  refine .bind ((appendBlockFile_grows blocks).imp (fun _ h => h) (fun _ _ h => h)
    fun d h => .inl (hkeep d h)) fun _ => ?_
  refine .contents_bind fun d₁ hgrows => ?_
  dsimp only
  rw [hgrows.nextGeneration]
  have hapart : ∀ d, Apart (generationFiles d₀.nextGeneration) d₁ d → I d := fun d h =>
    hspared.apart d₁ d (hkeep d₁ hgrows) (h.mono fun _ => .inr)
  refine .bind ((manifestForGeneration_triple d₀.nextGeneration blocks utxos d₁).imp (fun _ h => h)
    (fun _ _ h => h) fun d h => .inl (hapart d h)) fun m => ?_
  refine .bind (Q := fun _ => Durable d₀.nextGeneration (blocks, utxos)) (.pin ?_) fun _ => ?_
  · rintro d₂ ⟨hprepared, hfiles⟩
    refine (atomicWrite_triple manifestName (makeManifestText m) d₂).imp (fun _ h => h) ?_ ?_
    · intro _ d' h
      exact hprepared.durable hchain h
    · rintro d' (h | h)
      · refine .inl (hspared.apart d₁ d' (hkeep d₁ hgrows) ((hfiles.mono fun _ => .inr).trans
          (h.mono ?_)))
        rintro other rfl
        exact .inl rfl
      · exact .inr (hprepared.durable hchain h)
  have hcleanup : Triple (Durable d₀.nextGeneration (blocks, utxos))
      (cleanupOldGenerations d₀.nextGeneration)
      (fun _ => Durable d₀.nextGeneration (blocks, utxos))
      (fun d => I d ∨ Durable d₀.nextGeneration (blocks, utxos) d) :=
    (cleanupOldGenerations_triple fun d d' h => h.apart).imp (fun _ h => h) (fun _ _ h => h)
      fun _ => .inr
  have hmarker : ∀ bytes, Triple (Durable d₀.nextGeneration (blocks, utxos))
      (atomicWrite (str "migrated-from-chain-v3") bytes)
      (fun _ => Durable d₀.nextGeneration (blocks, utxos))
      (fun d => I d ∨ Durable d₀.nextGeneration (blocks, utxos) d) := by
    intro bytes
    refine .pin fun d hd => (atomicWrite_triple _ bytes d).imp (fun _ h => h) ?_ ?_
    · intro _ d' h
      exact hd.apart (h.toApart.mono (marker_otherNames _))
    · rintro d' (h | h)
      · exact .inr (hd.apart (h.mono fun other hother => marker_otherNames _ (.inr hother)))
      · exact .inr (hd.apart (h.toApart.mono (marker_otherNames _)))
  split_ifs
  · exact .bind (hmarker _) fun _ => hcleanup
  · exact hcleanup

/-! ## What a commit leaves -/

omit [Crypto] in
theorem atomicWrite_extends {d₀ : Disk} {name : Str} {bytes : Bytes} :
    Triple (Extends d₀) (atomicWrite name bytes) (fun _ => Extends d₀) (Extends d₀) := by
  refine .pin fun d hd => (atomicWrite_triple name bytes d).imp (fun _ h => h) ?_ ?_
  · intro _ d' h
    exact hd.trans h.toApart.extended
  · rintro d' (h | h)
    · exact hd.trans h.extended
    · exact hd.trans h.toApart.extended

/-- What `commit` does once the blocks are in the file. -/
def finishCommit (migrated : Bool) (blocks : List StoredBlock) (utxos : UtxoSet) : StoreM Unit := do
  let generation := (← contents).nextGeneration
  let manifest ← manifestForGeneration generation blocks utxos
  atomicWrite manifestName (makeManifestText manifest)
  if migrated then
    atomicWrite (str "migrated-from-chain-v3") (str "migrated from chain-v3.tsv\n")
  cleanupOldGenerations generation

theorem commitChain_eq (migrated : Bool) (blocks : List StoredBlock) (utxos : UtxoSet) :
    commitChain migrated blocks utxos = (do
      throwIf (blocks = []) (runtimeError "Cannot commit an empty active chain")
      idle
      idle
      idle
      appendBlockFile blocks
      finishCommit migrated blocks utxos) := rfl

theorem finishCommit_extends {migrated : Bool} {blocks : List StoredBlock} {utxos : UtxoSet}
    {d₀ : Disk} : Triple (Extends d₀) (finishCommit migrated blocks utxos) (fun _ => Extends d₀)
      (Extends d₀) := by
  refine .contents_bind fun d₁ hd₁ => ?_
  dsimp only
  refine .bind (Q := fun _ => Extends d₀) ((manifestForGeneration_triple _ blocks utxos d₁).imp
    (fun _ h => h) (fun _ _ h => hd₁.trans h.2.extended) fun _ h => hd₁.trans h.extended) fun m => ?_
  refine .bind atomicWrite_extends fun _ => ?_
  have hcleanup : ∀ {g : UInt64}, Triple (Extends d₀) (cleanupOldGenerations g) (fun _ => Extends d₀)
      (Extends d₀) := cleanupOldGenerations_triple fun d d' h hapart => h.trans hapart.extended
  split_ifs
  · exact .bind atomicWrite_extends fun _ => hcleanup
  · exact hcleanup

/-- **The block file of a commit** only grows. -/
theorem commitChain_extends {migrated : Bool} {blocks : List StoredBlock} {utxos : UtxoSet}
    {d₀ : Disk} : Triple (Extends d₀) (commitChain migrated blocks utxos) (fun _ => Extends d₀)
      (Extends d₀) := by
  have hidle : Triple (Extends d₀) idle (fun _ => Extends d₀) (Extends d₀) :=
    .idle (fun _ h => h) fun _ h => h
  refine triple_throwIf_bind (fun _ h => h) fun _ => ?_
  refine .bind hidle fun _ => .bind hidle fun _ => .bind hidle fun _ => ?_
  exact .bind (Q := fun _ => Extends d₀) (.pin fun d hd => (appendBlockFile_grows blocks).imp
    (fun d' h => h ▸ .refl d) (fun _ _ h => hd.trans h.file) fun _ h => hd.trans h.file) fun _ =>
      finishCommit_extends

/-- What is held under a generation is not touched before the commit point of the next one. -/
theorem HoldsAt.spared (g : UInt64) (c : List StoredBlock × UtxoSet) :
    Spared (g + 1) (fun d => HoldsAt g d c) := by
  have hne : g ≠ g + 1 := by
    intro h
    have hvalue := congrArg UInt64.toNat h
    rw [UInt64.toNat_add] at hvalue
    have hlt := g.toNat_lt
    simp only [UInt64.reduceToNat] at hvalue
    omega
  have hother : ∀ name, StoreName name → name ≠ indexName (g + 1) → name ≠ utxoName (g + 1) →
      name ∉ insert (temporary manifestName) (generationFiles (g + 1)) := by
    rintro name hname hindex hutxo (h | h | h | h | h)
    · exact hname.ne_temporary h
    · exact hindex h
    · exact hname.ne_temporary h
    · exact hutxo h
    · exact hname.ne_temporary h
  refine ⟨fun d d' h hgrows => h.grows hgrows, fun d d' h hapart => h.apart hapart ?_ ?_ ?_⟩
  · exact hother _ .manifest (fun h => indexName_ne_manifestName _ h.symm)
      fun h => utxoName_ne_manifestName _ h.symm
  · exact hother _ (.index g) (fun h => hne (indexName_inj.1 h)) (indexName_ne_utxoName _ _)
  · exact hother _ (.utxo g) (fun h => indexName_ne_utxoName _ _ h.symm)
      fun h => hne (utxoName_inj.1 h)

/-- A commit that has returned. -/
theorem Ran.durable {migrated : Bool} {blocks : List StoredBlock} {utxos : UtxoSet}
    (hchain : Chain blocks utxos) (hran : Ran (commitChain migrated blocks utxos) d (some ()) d') :
    Durable d.nextGeneration (blocks, utxos) d' := by
  have hspared : Spared d.nextGeneration fun _ => True :=
    ⟨fun _ _ _ _ => trivial, fun _ _ _ _ => trivial⟩
  exact ((commitChain_triple hchain trivial hspared).ran rfl hran).2 () rfl

/-- **A commit that is interrupted** leaves what was held, or the new chain. -/
theorem HoldsAt.interrupted {migrated : Bool} {blocks : List StoredBlock} {utxos : UtxoSet}
    {result : Option Unit} (h : HoldsAt g d c) (hchain : Chain blocks utxos)
    (hran : Ran (commitChain migrated blocks utxos) d result d') :
    HoldsAt g d' c ∨ Durable (g + 1) (blocks, utxos) d' := by
  have hspared := HoldsAt.spared g c
  rw [← h.nextGeneration] at hspared ⊢
  exact ((commitChain_triple hchain h hspared).ran rfl hran).1

/-! ## The next process -/

/-- A process that comes up on the disk, and whose operations do not fail, loads the chain. -/
def LoadedFrom (d : Disk) (c : List StoredBlock × UtxoSet) : Prop :=
  ∀ s : TestnetChain DurableChainStore, s.storage.machine.disk = d →
    (∀ n, s.storage.machine.fails n = none) → ∃ storage, (TestnetChain.load .durable).run s =
      .ok () { s with storage := storage, blocks := c.1, utxos := c.2 }

omit [Crypto] in
theorem idle_total {P : Disk → Prop} : Total P idle fun _ => P := .operation fun _ h => h

theorem durableLoad_run {s : DurableChainStore} (utxos : UtxoSet)
    (hload : s.machine.disk.load = .ok c) (hfails : ∀ n, s.machine.fails n = none) :
    ∃ m, DurableChainStore.load.run (s, utxos) = .ok c.1 ({ s with machine := m }, c.2) ∧
      m.disk = s.machine.disk ∧ m.fails = s.machine.fails := by
  have htotal : Total (fun d => d = s.machine.disk)
      (do idle; idle; idle; return (← (← contents).load) : StoreM (List StoredBlock × UtxoSet))
      (fun loaded d => loaded = c ∧ d = s.machine.disk) := by
    refine .bind idle_total fun _ => .bind idle_total fun _ => .bind idle_total fun _ => ?_
    refine .contents_bind ?_
    rintro d rfl
    rw [hload]
    exact .pure fun _ h => ⟨rfl, h⟩
  obtain ⟨loaded, m, hrun, ⟨rfl, hdisk⟩, hkept⟩ := htotal s.machine rfl hfails
  refine ⟨m, ?_, hdisk, hkept⟩
  rw [EStateM.run] at hrun
  simp only [DurableChainStore.load, DurableChainStore.onMachine, EStateM.run, hrun]

theorem HoldsAt.storeExists (h : HoldsAt g d c) : d.storeExists = true := by
  obtain ⟨m, hreads, -⟩ := h.reads
  obtain ⟨text, htext, -⟩ := hreads.manifest
  rw [Disk.storeExists, ExtTreeMap.contains_eq_isSome_getElem?, htext]
  rfl

theorem storeExists_run {s : TestnetChain DurableChainStore} :
    (onStorage ChainStore.durable.storeExists).run s = .ok s.storage.machine.disk.storeExists s := rfl

/-- What the store has loaded passes the checks of the object. -/
theorem load_durable_run {s : TestnetChain DurableChainStore} {storage : DurableChainStore}
    (hexists : s.storage.machine.disk.storeExists = true)
    (hload : DurableChainStore.load.run (s.storage, s.utxos) = .ok c.1 (storage, c.2))
    (hchain : Chain c.1 c.2) : (TestnetChain.load .durable).run s =
      .ok () { s with storage := storage, blocks := c.1, utxos := c.2 } := by
  have hverify : verifyBlocks c.1 = .ok () := verifyBlocks_iff.2 ⟨c.2, hchain⟩
  rw [TestnetChain.load, EStateM.run_bind, storeExists_run, hexists]
  simp only [if_true, run_bind_ok, onStorageUtxos_run_ok, setBlocks_run_ok, TestnetChain.verify_ok,
    run_get_ok, lift_run_ok]
  refine ⟨c.1, _, ⟨storage, c.2, hload, rfl⟩, (), _, rfl, (), _, ⟨hverify, rfl⟩, _, _, ⟨rfl, rfl⟩, c.2,
    _, ⟨hchain.build, rfl⟩, ?_⟩
  rw [if_neg (fun h => h.2 h.1), throwIf_run_ok]
  exact ⟨by simp [utxoSetsEqual_iff], rfl⟩

/-- A process that loads the chain has not changed the disk. -/
theorem HoldsAt.load_run {s : TestnetChain DurableChainStore} (h : HoldsAt g s.storage.machine.disk c)
    (hchain : Chain c.1 c.2) (hfails : ∀ n, s.storage.machine.fails n = none) :
    ∃ m, (TestnetChain.load .durable).run s = .ok () { s with
        storage := { s.storage with machine := m }, blocks := c.1, utxos := c.2 } ∧
      m.disk = s.storage.machine.disk ∧ ∀ n, m.fails n = none := by
  obtain ⟨m, hload, hdisk, hkept⟩ := durableLoad_run s.utxos h.load hfails
  exact ⟨m, load_durable_run h.storeExists hload hchain, hdisk, hkept ▸ hfails⟩

theorem HoldsAt.loadedFrom (h : HoldsAt g d c) (hchain : Chain c.1 c.2) : LoadedFrom d c := by
  rintro s rfl hfails
  obtain ⟨m, hrun, -⟩ := h.load_run hchain hfails
  exact ⟨_, hrun⟩

end

end BinaryCoin
