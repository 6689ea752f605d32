/-
  BinaryCoin — recovery from the phrase: what a wallet that `import_mnemonic`
  makes owns of the wallet that `create` made.

  The imported counters are those of a new wallet, so it owns what the
  look-ahead reaches: the receive keys 0 to 20.
-/
import BinaryCoin.WalletUse

namespace BinaryCoin

open Cursor Text Runs

/-- The outcome of a member function, without the object. -/
def outcome {ε σ α : Type} : EStateM.Result ε σ α → Except ε α
  | .ok a _ => .ok a
  | .error e _ => .error e

namespace HdWalletBackend

section
variable [Crypto] [KeyCrypto]

/-! ## Balances -/

/-- What `balance` adds for a coin, given what is owned. -/
def addCoinIf (owned : Bytes → Bool) (spendHeight : UInt64) (result : WalletBalance) (coin : Coin) :
    Except Exn WalletBalance :=
  if owned coin.output.scriptPubkey then do
    throwIf (result.total > maxMoney - coin.output.value) (runtimeError "Wallet balance overflow")
    if coin.coinbase ∧ spendHeight < coin.height + coinbaseMaturity then
      return { result with
        total := result.total + coin.output.value
        immature := result.immature + coin.output.value }
    else
      return { result with
        total := result.total + coin.output.value
        spendable := result.spendable + coin.output.value }
  else .ok result

variable {w : HdWalletBackend} {entries : List (Bytes × Secp256k1Secret)}

theorem addCoin_run (h : w.ownedEntries = .ok entries)
    (hcache : w.ownedCache = none ∨ w.ownedCache = some entries) (spendHeight : UInt64)
    (result : WalletBalance) (coin : Coin) :
    (addCoin spendHeight result coin).run w =
      match addCoinIf (fun script => entries.any (·.1 = script)) spendHeight result coin with
      | .ok result => .ok result { w with ownedCache := some entries }
      | .error e => .error e { w with ownedCache := some entries } := by
  rw [addCoin, EStateM.run_bind, ownsScript_run h hcache]
  unfold addCoinIf
  by_cases howned : entries.any (·.1 = coin.output.scriptPubkey) = true
  · simp only [howned, if_true]
    by_cases hlarge : result.total > maxMoney - coin.output.value
    · rw [throwIf, throwIf, if_pos hlarge, if_pos hlarge]
      rfl
    · rw [throwIf, throwIf, if_neg hlarge, if_neg hlarge]
      by_cases himmature : coin.coinbase ∧ spendHeight < coin.height + coinbaseMaturity
      · simp only [if_pos himmature]
        rfl
      · simp only [if_neg himmature]
        rfl
  · simp only [howned]
    rfl

theorem foldlM_addCoin (h : w.ownedEntries = .ok entries)
    (hcache : w.ownedCache = none ∨ w.ownedCache = some entries) (spendHeight : UInt64)
    (result : WalletBalance) (coins : List Coin) :
    outcome ((coins.foldlM (addCoin spendHeight) result).run w) =
      coins.foldlM (addCoinIf (fun script => entries.any (·.1 = script)) spendHeight) result := by
  induction coins generalizing w result with
  | nil => rfl
  | cons coin coins ih =>
    rw [List.foldlM_cons, List.foldlM_cons, EStateM.run_bind, addCoin_run h hcache]
    cases addCoinIf (fun script => entries.any (·.1 = script)) spendHeight result coin with
    | error e => rfl
    | ok result' => exact ih (w := { w with ownedCache := some entries }) h (.inr rfl) result'

omit [Crypto] [KeyCrypto] in
theorem foldlM_addCoinIf_congr {owned owned' : Bytes → Bool} {coins : List Coin}
    (h : ∀ coin ∈ coins, owned coin.output.scriptPubkey = owned' coin.output.scriptPubkey)
    (spendHeight : UInt64) (result : WalletBalance) :
    coins.foldlM (addCoinIf owned spendHeight) result =
      coins.foldlM (addCoinIf owned' spendHeight) result := by
  induction coins generalizing result with
  | nil => rfl
  | cons coin coins ih =>
    obtain ⟨hcoin, hcoins⟩ := List.forall_mem_cons.1 h
    have heq : addCoinIf owned spendHeight result coin = addCoinIf owned' spendHeight result coin := by
      rw [addCoinIf, addCoinIf, hcoin]
    rw [List.foldlM_cons, List.foldlM_cons, heq]
    exact bind_congr fun result' => ih hcoins result'

/-- Wallets that own the same of the coins have the same balance. -/
theorem balance_congr {v : HdWalletBackend} {entries' : List (Bytes × Secp256k1Secret)}
    (hw : w.ownedEntries = .ok entries) (hv : v.ownedEntries = .ok entries')
    (hcachew : w.ownedCache = none) (hcachev : v.ownedCache = none) {utxos : UtxoSet}
    (hsame : ∀ (outpoint : OutPoint) (coin : Coin), utxos[outpoint]? = some coin →
      entries.any (·.1 = coin.output.scriptPubkey) = entries'.any (·.1 = coin.output.scriptPubkey))
    (spendHeight : UInt64) :
    outcome ((balance utxos spendHeight).run v) = outcome ((balance utxos spendHeight).run w) := by
  rw [balance, foldlM_addCoin hv (.inl hcachev), foldlM_addCoin hw (.inl hcachew)]
  refine foldlM_addCoinIf_congr (fun coin hcoin => ?_) spendHeight {}
  obtain ⟨⟨outpoint, coin⟩, hmem, rfl⟩ := List.mem_map.1 hcoin
  exact (hsame outpoint coin (OrdMap.mem_toList.1 hmem)).symm

/-! ## Recovery -/

/-- `owns_script` is true of the script of a key. -/
def OwnsKey (w : HdWalletBackend) (key : Secp256k1Secret) : Prop :=
  ∃ script, makeP2pkScript key.compressedPublicKey = .ok script ∧
    ∃ w', (ownsScript script).run w = .ok true w'

def OwnsAddress (w : HdWalletBackend) (address : Str) : Prop :=
  ∃ key : Secp256k1Secret, encodeTestnetAddress key.compressedPublicKey = .ok address ∧ w.OwnsKey key

variable {entropy : Hash256} {master : HdPrivateKey}

theorem importMnemonic_fresh (hmaster : masterOf entropy = .ok master) (dataDirectory : String) :
    (importMnemonic (entropyToMnemonic entropy) .done).run (Use.fresh dataDirectory none).wallet =
      .ok () (issuedUse dataDirectory entropy master 1 []).wallet := by
  have hset := setHdEntropy_run hmaster (Use.fresh dataDirectory none).wallet
  exact run_bind_ok.2 ⟨_, _, rfl, run_bind_ok.2 ⟨(), _, throwIf_run_ok.2 ⟨nofun, rfl⟩,
    run_bind_ok.2 ⟨_, _, lift_run_ok.2 ⟨mnemonicToEntropy_entropyToMnemonic entropy, rfl⟩,
      run_bind_ok.2 ⟨_, _, hset, saveHd_run rfl rfl⟩⟩⟩⟩

/-- What a wallet that has handed out `n` addresses owns. -/
theorem issued_entries (hpublic : PublicKeysValid) {n : ℕ} (hn : n < maxIndex)
    (hderivable : Derivable entropy master (n + 21)) (dataDirectory : String) (handed : List Str) :
    ∃ entries,
      (issuedUse dataDirectory entropy master (UInt32.ofNat (n + 1)) handed).wallet.ownedEntries =
        .ok entries ∧
      ∀ script, entries.any (·.1 = script) = true ↔
        (∃ index key, index.toNat < n + 21 ∧ walletKey master 0 index = .ok key ∧
          script = p2pkScript key) ∨
        ∃ index key, index.toNat < 21 ∧ walletKey master 1 index = .ok key ∧
          script = p2pkScript key := by
  simp only [maxIndex] at hn
  have hwindow : (UInt32.ofNat (n + 1) + lookahead).toNat = n + 21 := by
    rw [UInt32.toNat_add, UInt32.toNat_ofNat']
    simp only [lookahead, UInt32.reduceToNat]
    omega
  obtain ⟨entries, hentries, hmem⟩ := ownedEntries_ok hpublic
    (w := (issuedUse dataDirectory entropy master (UInt32.ofNat (n + 1)) handed).wallet) rfl rfl
    hderivable hwindow.le (Nat.le_add_left 21 n)
  refine ⟨entries, hentries, fun script => ?_⟩
  rw [List.any_eq_true]
  constructor
  · rintro ⟨⟨_, key⟩, hentry, heq⟩
    obtain rfl := of_decide_eq_true heq
    rcases (hmem _).1 hentry with ⟨index, hindex, hkey, hscript⟩ | ⟨index, hindex, hkey, hscript⟩ |
      ⟨hlegacy, -⟩
    · exact .inl ⟨index, key, hwindow ▸ UInt32.lt_iff_toNat_lt.1 hindex, hkey, hscript⟩
    · exact .inr ⟨index, key, UInt32.lt_iff_toNat_lt.1 hindex, hkey, hscript⟩
    · cases hlegacy
  · rintro (⟨index, key, hindex, hkey, rfl⟩ | ⟨index, key, hindex, hkey, rfl⟩)
    · exact ⟨(p2pkScript key, key), (hmem _).2 (.inl ⟨index, UInt32.lt_iff_toNat_lt.2
        (hwindow.symm ▸ hindex), hkey, rfl⟩), decide_eq_true rfl⟩
    · exact ⟨(p2pkScript key, key), (hmem _).2 (.inr (.inl ⟨index, UInt32.lt_iff_toNat_lt.2
        hindex, hkey, rfl⟩)), decide_eq_true rfl⟩

theorem ownsKey_of_entry (hpublic : PublicKeysValid) {w : HdWalletBackend}
    {entries : List (Bytes × Secp256k1Secret)} (hentries : w.ownedEntries = .ok entries)
    (hcache : w.ownedCache = none) {key : Secp256k1Secret}
    (h : entries.any (·.1 = p2pkScript key) = true) : w.OwnsKey key := by
  have hrun := ownsScript_run hentries (.inl hcache) (p2pkScript key)
  rw [h] at hrun
  exact ⟨_, makeP2pkScript_key hpublic key, _, hrun⟩

/-- **Recovery from the phrase**, up to the reach of the look-ahead: the first 20 addresses that were
    handed out, the first address and the change key are owned, and the balance is the same on a
    UTXO set that pays none of the receive keys beyond. -/
theorem recovery (hpublic : PublicKeysValid) {n : ℕ} (hn : n < maxIndex)
    (hderivable : Derivable entropy master (n + 21)) (dataDirectory dataDirectory' : String)
    {u : Use} (hu : u = (issued entropy n).foldl Use.step (Use.fresh dataDirectory none)) :
    ∃ phrase w v,
      (create entropy .done).run (Use.fresh dataDirectory none).wallet = .ok phrase w ∧
      (importMnemonic phrase .done).run (Use.fresh dataDirectory' none).wallet = .ok () v ∧
      u.handed.length = n ∧
      (∀ i address, u.handed[i]? = some address → i < 20 → v.OwnsAddress address) ∧
      (∃ address, u.wallet.address = .ok address ∧ v.OwnsAddress address) ∧
      (∃ key, u.wallet.hdKey 1 0 = .ok key ∧ v.OwnsKey key) ∧
      ∀ (utxos : UtxoSet) spendHeight,
        (∀ (outpoint : OutPoint) (coin : Coin), utxos[outpoint]? = some coin →
          ∀ (index : UInt32) key, 20 < index.toNat → index.toNat ≤ n + 20 →
            u.wallet.hdKey 0 index = .ok key → coin.output.scriptPubkey ≠ p2pkScript key) →
        outcome ((balance utxos spendHeight).run v) =
          outcome ((balance utxos spendHeight).run u.wallet) := by
  have hmaster := hderivable.masterOf_eq
  simp only [maxIndex] at hn
  obtain ⟨handed, hissued, hlength, hhanded⟩ := issued_run hpublic dataDirectory hderivable
    (by omega : n < n + 21) (by omega)
  rw [hissued] at hu
  subst hu
  obtain ⟨entries, hentries, howned⟩ := issued_entries hpublic hn hderivable dataDirectory handed
  obtain ⟨entries', hentries', howned'⟩ := issued_entries hpublic (by decide : 0 < maxIndex)
    (⟨hmaster, fun branch index hbranch hindex => hderivable.key branch index hbranch (by omega)⟩ :
      Derivable entropy master (0 + 21)) dataDirectory' []
  have hfirst : ∀ index key, index.toNat < 21 → walletKey master 0 index = .ok key →
      (issuedUse dataDirectory' entropy master 1 []).wallet.OwnsKey key := by
    intro index key hindex hkey
    exact ownsKey_of_entry hpublic hentries' rfl
      ((howned' _).2 (.inl ⟨index, key, hindex, hkey, rfl⟩))
  refine ⟨_, _, _, create_fresh hmaster, importMnemonic_fresh hmaster dataDirectory', hlength,
    ?_, ?_, ?_, ?_⟩
  · intro i address haddress hi
    obtain ⟨key, hkey, hencode⟩ := hhanded i address haddress
    refine ⟨key, hencode, hfirst _ key ?_ hkey⟩
    rw [UInt32.toNat_ofNat']
    omega
  · obtain ⟨key, hkey⟩ := hderivable.key 0 0 (.inl rfl) (by simp)
    obtain ⟨address, hencode⟩ := encodeTestnetAddress_ok (hpublic key)
    refine ⟨address, ?_, key, hencode, hfirst 0 key (by simp) hkey⟩
    exact except_bind_ok.2 ⟨key, (hdKey_eq rfl 0 0).trans hkey, hencode⟩
  · obtain ⟨key, hkey⟩ := hderivable.key 1 0 (.inr rfl) (by simp)
    exact ⟨key, (hdKey_eq rfl 1 0).trans hkey, ownsKey_of_entry hpublic hentries' rfl
      ((howned' _).2 (.inr ⟨0, key, by simp, hkey, rfl⟩))⟩
  · intro utxos spendHeight hbeyond
    refine balance_congr hentries hentries' rfl rfl (fun outpoint coin hcoin => ?_) spendHeight
    rw [Bool.eq_iff_iff, howned, howned']
    refine or_congr_left ⟨?_, ?_⟩
    · rintro ⟨index, key, hindex, hkey, hscript⟩
      by_cases hreach : index.toNat < 0 + 21
      · exact ⟨index, key, hreach, hkey, hscript⟩
      · exact absurd hscript (hbeyond outpoint coin hcoin index key (by omega) (by omega)
          ((hdKey_eq rfl 0 index).trans hkey))
    · rintro ⟨index, key, hindex, hkey, hscript⟩
      exact ⟨index, key, by omega, hkey, hscript⟩

end

end HdWalletBackend

section Zero

attribute [local instance] zeroCrypto zeroKeyCrypto

open HdWalletBackend

/-- The wallet that is imported, and its directory. -/
def zeroImported : HdWalletBackend := (issuedUse "" zeroEntropy zeroMaster 1 []).wallet

theorem zero_beyond :
    (do
      let key ← walletKey zeroMaster 0 21
      let entries ← zeroImported.ownedEntries
      return entries.any (·.1 = p2pkScript key)).toOption = some false := by
  decide +kernel

/-- The script of address 21 is not owned. -/
theorem not_recovered : ∃ (handed : List Str) (address : Str) (key : Secp256k1Secret),
    ((issued zeroEntropy 21).foldl Use.step (Use.fresh "" none)).handed = handed ∧
    handed[20]? = some address ∧ encodeTestnetAddress key.compressedPublicKey = .ok address ∧
    (importMnemonic (entropyToMnemonic zeroEntropy) .done).run (Use.fresh "" none).wallet =
      .ok () zeroImported ∧
    ¬ zeroImported.OwnsKey key := by
  obtain ⟨handed, hissued, hlength, hhanded⟩ := issued_run zero_publicKeysValid ""
    (zero_derivable (by norm_num)) (by norm_num : 21 < 22) (by norm_num)
  have haddress : handed[20]? = some handed[20] := List.getElem?_eq_getElem _
  obtain ⟨key, hkey, hencode⟩ := hhanded 20 _ haddress
  refine ⟨handed, _, key, ?_, haddress, hencode,
    importMnemonic_fresh masterOf_zeroEntropy "", ?_⟩
  · rw [hissued]
    rfl
  · rintro ⟨script, hscript, w', howns⟩
    obtain rfl := Except.ok.inj ((makeP2pkScript_key zero_publicKeysValid key).symm.trans hscript)
    obtain ⟨entries, hentries, -⟩ := issued_entries zero_publicKeysValid
      (by decide : 0 < maxIndex) (zero_derivable (by norm_num)) "" []
    have hrun := ownsScript_run (w := zeroImported) hentries (.inl rfl) (p2pkScript key)
    have hbeyond := zero_beyond
    rw [show walletKey zeroMaster 0 21 = .ok key from hkey,
      show zeroImported.ownedEntries = .ok entries from hentries] at hbeyond
    have hfalse : entries.any (·.1 = p2pkScript key) = false := Option.some.inj hbeyond
    rw [hfalse] at hrun
    cases hrun.symm.trans howns

/-- All of 20 addresses are recovered. -/
theorem recovery_zero : ∃ v,
    (importMnemonic (entropyToMnemonic zeroEntropy) .done).run (Use.fresh "" none).wallet =
      .ok () v ∧
    ∀ address ∈ ((issued zeroEntropy 20).foldl Use.step (Use.fresh "" none)).handed,
      v.OwnsAddress address := by
  obtain ⟨phrase, w, v, hcreate, himport, hlength, hhanded, -⟩ := recovery zero_publicKeysValid
    (by decide : 20 < maxIndex) (zero_derivable (by norm_num)) "" "" rfl
  obtain ⟨rfl, -⟩ := EStateM.Result.ok.inj (hcreate.symm.trans
    (create_fresh masterOf_zeroEntropy))
  refine ⟨v, himport, fun address haddress => ?_⟩
  obtain ⟨i, hi, rfl⟩ := List.mem_iff_getElem.1 haddress
  exact hhanded i _ (List.getElem?_eq_getElem hi) (hlength ▸ hi)

end Zero

end BinaryCoin
