import SickPool.Jobs.Job

/-!
# The bytes of a found block

Two places where the bytes of a block are put together. A ZEC block has its transactions
behind their number, which is written as a script number while the network reads a CompactSize.
A CN block has the nonce set in the template, by a copy that counts words where it should count
bytes and so reads the words behind the nonce.
-/
namespace SickPool.Jobs

open SickPool.Library SickPool.Library.Bytes SickPool.Utils SickPool.Crypto

/-! ## The transactions of a ZEC block -/

/-- The bytes of the number behind a marker. -/
def markedSize (type : UInt8) : Nat := if type = 0xFD then 2 else if type = 0xFE then 4 else 8

/-- `ReadNumScript`: the number and the bytes it takes; `none` behind the end of the script. -/
def readNumScript : Bytes → Option (Nat × Nat)
  | [] => none
  | type :: script =>
    if type < 0xFD then some (type.toNat, 1)
    else if script.length < markedSize type then none
    else some (leNat (script.take (markedSize type)), markedSize type + 1)

/-- A number of more than one byte is read of the bytes behind its marker. -/
theorem readNumScript_eq {script : Bytes} {value k : Nat}
    (h : readNumScript script = some (value, k)) :
    0 < k ∧ k ≤ script.length ∧
      (1 < k → 0xFD ≤ leNat (script.take 1) ∧ value = leNat ((script.drop 1).take (k - 1))) := by
  cases script with
  | nil => cases h
  | cons type script =>
    simp only [readNumScript] at h
    split at h
    · obtain ⟨-, rfl⟩ := Prod.mk.inj (Option.some.inj h)
      simp
    · rename_i htype
      split at h
      · cases h
      · rename_i hlen
        obtain ⟨rfl, rfl⟩ := Prod.mk.inj (Option.some.inj h)
        refine ⟨Nat.succ_pos _, ?_, fun _ => ⟨?_, by simp⟩⟩
        · rw [List.length_cons]
          omega
        · rw [UInt8.lt_iff_toNat_lt, Nat.not_lt] at htype
          simpa using htype

theorem leNat_absBytes {fuel n : Nat} (h : n < 256 ^ fuel) : leNat (absBytes fuel n) = n := by
  induction fuel generalizing n with
  | zero =>
    rw [pow_zero, Nat.lt_one_iff] at h
    rw [h]
    rfl
  | succ fuel ih =>
    rw [absBytes]
    split
    · rename_i hz
      rw [hz]
      rfl
    · have hdiv : n / 256 < 256 ^ fuel := by
        rw [Nat.div_lt_iff_lt_mul (by decide)]
        exact h.trans_eq (Nat.pow_succ ..)
      rw [leNat_cons, ih hdiv, UInt8.toNat_ofNat']
      omega

theorem leNat_genNumScript {n : Nat} (h : n < 2 ^ 64) : leNat (genNumScript n) = n := by
  have habs : leNat (absBytes 8 n) = n := leNat_absBytes (h.trans_eq (by decide))
  unfold genNumScript
  split
  · rename_i hz
    rw [hz]
    rfl
  · simp only
    split
    · rw [leNat_append, habs]
      simp
    · exact habs

theorem genNumScript_small {n : Nat} (h : n < 128) : genNumScript n = [UInt8.ofNat n] := by
  have hall : ∀ m : Fin 128, genNumScript m = [UInt8.ofNat m] := by decide
  exact hall ⟨n, h⟩

/-- From 128 on a script number has two bytes or more: a lone byte has its top bit clear. -/
theorem genNumScript_length {n : Nat} (h : 128 ≤ n) (hn : n < 2 ^ 64) :
    1 < (genNumScript n).length := by
  have hvalue := leNat_genNumScript hn
  have hlast : ∀ b : UInt8, genNumScript n = [b] → b.toNat < 128 := by
    intro b hb
    unfold genNumScript at hb
    split at hb
    · omega
    · simp only at hb
      split at hb
      · have hlen := congrArg List.length hb
        rw [List.length_append, List.length_singleton, List.length_singleton] at hlen
        have hnil := List.length_eq_zero_iff.mp (by omega : (absBytes 8 n).length = 0)
        rename_i htop
        rw [hnil] at htop
        exact absurd htop (by decide)
      · rename_i htop
        rw [hb] at htop
        exact Nat.lt_of_not_le htop
  rcases hs : genNumScript n with _ | ⟨b, _ | ⟨c, rest⟩⟩
  · rw [hs, leNat_nil] at hvalue
    omega
  · have hb := hlast b hs
    rw [hs, leNat_cons, leNat_nil] at hvalue
    omega
  · simp

/-- A script number, read as a CompactSize, is the number and ends where it ends only below
128: from there on it would be read of its own bytes but the first. -/
theorem readNumScript_genNumScript_iff {n : Nat} (hn : n < 2 ^ 64) (rest : Bytes) :
    (∃ k, readNumScript (genNumScript n ++ rest) = some (n, k) ∧
        (genNumScript n ++ rest).drop k = rest) ↔ n < 128 := by
  constructor
  · rintro ⟨k, hread, hdrop⟩
    by_contra hlarge
    obtain ⟨hpos, hk, hvalue⟩ := readNumScript_eq hread
    have hlen := congrArg List.length hdrop
    rw [List.length_drop, List.length_append] at hlen
    rw [List.length_append] at hk
    have hend : k = (genNumScript n).length := by omega
    have htwo := genNumScript_length (Nat.not_lt.mp hlarge) hn
    obtain ⟨hmark, hdigits⟩ := hvalue (by omega)
    have hself := leNat_genNumScript hn
    rcases hs : genNumScript n with _ | ⟨b, digits⟩
    · simp [hs] at htwo
    · rw [hs, List.length_cons] at hend
      rw [hs] at hmark hdigits hself
      simp only [List.cons_append, List.take_succ_cons, List.take_zero, leNat_cons,
        leNat_nil] at hmark
      rw [List.cons_append, List.drop_one, List.tail_cons, hend, Nat.add_sub_cancel,
        List.take_left] at hdigits
      rw [leNat_cons] at hself
      omega
  · intro hsmall
    have htype : UInt8.ofNat n < 0xFD := by
      rw [UInt8.lt_iff_toNat_lt, UInt8.toNat_ofNat']
      exact Nat.lt_of_le_of_lt (Nat.mod_le _ _) (hsmall.trans (by decide))
    refine ⟨1, ?_, by rw [genNumScript_small hsmall]; rfl⟩
    rw [genNumScript_small hsmall, List.singleton_append, readNumScript, if_pos htype,
      UInt8.toNat_ofNat', Nat.mod_eq_of_lt (hsmall.trans (by decide))]

theorem unhexlify_flatMap {txs : List TxRes} (h : ∀ tx ∈ txs, tx.data.length % 2 = 0) :
    unhexlify (txs.flatMap (·.data)) = txs.flatMap (fun tx => unhexlify tx.data) := by
  induction txs with
  | nil => rfl
  | cons tx txs ih =>
    obtain ⟨htx, htxs⟩ := List.forall_mem_cons.mp h
    rw [List.flatMap_cons, unhexlify_append htx, ih htxs, List.flatMap_cons]

theorem unhexlify_getTransactionHex {txs : List TxRes} (h : ∀ tx ∈ txs, tx.data.length % 2 = 0) :
    unhexlify (getTransactionHex txs) =
      genNumScript txs.length ++ txs.flatMap (fun tx => unhexlify tx.data) := by
  have heven : (hexlify (genNumScript txs.length)).length % 2 = 0 := by
    rw [hexlify_length]
    omega
  rw [getTransactionHex, unhexlify_append heven, unhexlify_hexlify, unhexlify_flatMap h]

/-- **When the transactions decode back.** For every template with fewer than 2^32
transactions of whole bytes, the number read in front of them is theirs and they follow it, if
and only if there are fewer than 128. -/
theorem transactions_decode_iff (hashes : Hashes) (jobId : Bytes)
    (bTemplate : BlockTemplateResVrsc) (isPayment : Bool)
    (hcount : bTemplate.transactions.length < 2 ^ 32)
    (heven : ∀ tx ∈ bTemplate.transactions, tx.data.length % 2 = 0) :
    (∃ k, readNumScript
          (unhexlify (JobZec.new hashes jobId bTemplate isPayment).transactionsHex) =
            some (bTemplate.transactions.length, k) ∧
        (unhexlify (JobZec.new hashes jobId bTemplate isPayment).transactionsHex).drop k =
          bTemplate.transactions.flatMap (fun tx => unhexlify tx.data)) ↔
      bTemplate.transactions.length < 128 := by
  change (∃ k, readNumScript (unhexlify (getTransactionHex bTemplate.transactions)) = _ ∧
    (unhexlify (getTransactionHex bTemplate.transactions)).drop k = _) ↔ _
  rw [unhexlify_getTransactionHex heven]
  exact readNumScript_genNumScript_iff (hcount.trans (by decide)) _

def zeroHashes : Hashes where
  sha256d := fun _ => MerkleTree.zeroHash
  verushashV2b2 := fun _ => MerkleTree.zeroHash
  longhash := fun _ _ _ => MerkleTree.zeroHash
  cnFastHash := fun _ => MerkleTree.zeroHash
  unserializeBlock := fun _ => ⟨0, [], []⟩
  getBlockHash := fun _ => MerkleTree.zeroHash

/-- A template with a number of transactions of one byte each. -/
def countedTemplate (count : Nat) : BlockTemplateResVrsc where
  version := 4
  prevBlockHash := []
  finalSrootHash := []
  solution := []
  transactions := List.replicate count ⟨ascii "ab", [], 0⟩
  coinbaseValue := 0
  target := []
  minTime := 0
  bits := 0
  height := 1

theorem transactions_decode_three :
    ∃ k, readNumScript
          (unhexlify (JobZec.new zeroHashes [] (countedTemplate 3) true).transactionsHex) =
            some ((countedTemplate 3).transactions.length, k) ∧
        (unhexlify (JobZec.new zeroHashes [] (countedTemplate 3) true).transactionsHex).drop k =
          (countedTemplate 3).transactions.flatMap (fun tx => unhexlify tx.data) :=
  (transactions_decode_iff zeroHashes [] (countedTemplate 3) true (by decide) (by decide)).mpr
    (by decide)

/-- The number of 128 transactions is read of its first byte, and the byte behind it stands in
front of the transactions. -/
theorem transactions_shifted :
    readNumScript (unhexlify (JobZec.new zeroHashes [] (countedTemplate 128) true).transactionsHex) =
        some (128, 1) ∧
      ¬ ∃ k, readNumScript
            (unhexlify (JobZec.new zeroHashes [] (countedTemplate 128) true).transactionsHex) =
              some ((countedTemplate 128).transactions.length, k) ∧
          (unhexlify (JobZec.new zeroHashes [] (countedTemplate 128) true).transactionsHex).drop k =
            (countedTemplate 128).transactions.flatMap (fun tx => unhexlify tx.data) := by
  have hread : readNumScript
      (unhexlify (JobZec.new zeroHashes [] (countedTemplate 128) true).transactionsHex) =
        some (128, 1) := by
    decide +kernel
  refine ⟨hread, ?_⟩
  rintro ⟨k, hk, hdrop⟩
  rw [hread] at hk
  obtain ⟨-, rfl⟩ := Prod.mk.inj (Option.some.inj hk)
  exact absurd hdrop (by decide +kernel)

/-! ## The nonce of a CN block -/

/-- `std::copy` into characters from the start of an object of 64-bit words, for a number of
words; `none` when it reads behind the object. -/
def copyWords (object : List Nat) (count : Nat) : Option Bytes :=
  (List.range count).mapM (fun i => (object[i]?).map UInt8.ofNat)

/-- `sizeof(nonce)`. -/
def nonceSize : Nat := 8

/-- The template with its eight bytes behind the first replaced by those of the nonce. -/
def JobCn.withNonce (job : JobCn) (nonce : Nat) : Bytes := writeAt job.blockBin 1 (leBytes 8 nonce)

/-- The copy as it goes on over the words that follow the nonce in memory. -/
theorem setNonce_eq_copy (job : JobCn) (nonce : Nat) (words : List.Vector Nat 7) :
    (copyWords (nonce :: words.toList) nonceSize).map (writeAt job.blockBin 1) =
      some (job.setNonce (words.map UInt8.ofNat) nonce) := by
  obtain ⟨words, hlen⟩ := words
  match words, hlen with
  | [a, b, c, d, e, f, g], _ =>
    have hbyte : UInt8.ofNat (nonce % 256) = UInt8.ofNat nonce := by
      apply UInt8.toNat_inj.mp
      simp
    rw [JobCn.setNonce, hbyte]
    rfl

/-- The bytes are those of the nonce when the words behind it happen to end in them. -/
theorem setNonce_eq_withNonce_iff (job : JobCn) (beyond : List.Vector UInt8 7) (nonce : Nat) :
    job.setNonce beyond nonce = job.withNonce nonce ↔ beyond.toList = leBytes 7 (nonce / 256) := by
  have hlen : (UInt8.ofNat (nonce % 256) :: beyond.toList).length = (leBytes 8 nonce).length := by
    simp
  rw [JobCn.setNonce, JobCn.withNonce, writeAt, writeAt, hlen, List.append_left_inj,
    List.append_right_inj, leBytes, List.cons_inj_right]

theorem hexlify_injective : Function.Injective hexlify :=
  Function.LeftInverse.injective unhexlify_hexlify

/-- `GetBlockHex` and `GetBlockHash` work on the template with the nonce, and neither of them
reads an element that is not the nonce. The two calls have stack frames of their own. -/
structure NonceInserted (hashes : Hashes) (job : JobCn) (beyondHex beyondHash : List.Vector UInt8 7)
    (nonce : Nat) : Prop where
  hex : job.getBlockHex beyondHex nonce = hexlify (job.withNonce nonce)
  hash : job.setNonce beyondHash nonce = job.withNonce nonce ∧
    job.getBlockHash hashes beyondHash nonce = hashes.getBlockHash (job.withNonce nonce)
  inside : (copyWords [nonce] nonceSize).isSome

/-- **The nonce is never inserted as it should be.** For every job, every nonce and whatever
lies behind it, seven of the eight elements copied are not the nonce, and the bytes are right
only when the words behind the nonce happen to end in its seven upper bytes. -/
theorem nonce_not_inserted (hashes : Hashes) (job : JobCn)
    (beyondHex beyondHash : List.Vector UInt8 7) (nonce : Nat) :
    ¬ NonceInserted hashes job beyondHex beyondHash nonce ∧
      (job.getBlockHex beyondHex nonce = hexlify (job.withNonce nonce) ↔
        beyondHex.toList = leBytes 7 (nonce / 256)) ∧
      (job.setNonce beyondHash nonce = job.withNonce nonce ↔
        beyondHash.toList = leBytes 7 (nonce / 256)) := by
  refine ⟨?_, ?_, setNonce_eq_withNonce_iff job beyondHash nonce⟩
  · intro h
    exact absurd h.inside (by simp [copyWords, nonceSize, List.range_succ])
  · rw [JobCn.getBlockHex, hexlify_injective.eq_iff]
    exact setNonce_eq_withNonce_iff job beyondHex nonce

/-- A template of eleven zero bytes. -/
def zeroJob : JobCn := JobCn.new zeroHashes ⟨List.replicate 22 48, 1, 1, []⟩ true

/-- With zeros behind the nonce only its lowest byte is set, and the copy leaves the nonce. -/
theorem nonce_cut_off :
    zeroJob.getBlockHex (List.Vector.replicate 7 0) 0x0807060504030201 =
        ascii "0001000000000000000000" ∧
      zeroJob.getBlockHex (List.Vector.replicate 7 0) 0x0807060504030201 ≠
        hexlify (zeroJob.withNonce 0x0807060504030201) ∧
      copyWords [0x0807060504030201] nonceSize = none := by
  refine ⟨?_, ?_, ?_⟩ <;> decide +kernel

end SickPool.Jobs
