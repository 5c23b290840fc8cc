import SickPool.Crypto.VerusHash

/-!
# VerusHash as a function

A hasher object is reused for every share and the key cache for every hash of a thread. The
first part says what a hasher holds after any pieces of data; the second that the key handed to
`verusclhash` is always the one that belongs to the seed, although hashing spoils it.
-/
namespace SickPool.Crypto.VerusHash

open SickPool.Library SickPool.Library.Bytes SickPool.Library.Absorb

variable {F : Haraka}

/-! ## What a hasher holds -/

/-- Chain one block: the hash of the last result and the block. -/
def compress (F : Haraka) (head block : Bytes) : Bytes := (F.haraka512 (head ++ block)).toList

theorem compress_length (head block : Bytes) : (compress F head block).length = 32 :=
  Vector.length_toList

/-- A copy into the middle of a buffer. -/
theorem writeAt_middle {a b c src : Bytes} (h : src.length = b.length) :
    writeAt (a ++ (b ++ c)) a.length src = a ++ (src ++ c) := by
  rw [writeAt_behind, h, List.drop_left, List.append_assoc]

/-- The buffers of a hasher after the result `head` and the bytes `rest` of an unfinished
block. What lies behind them in the buffer can be anything. -/
structure Hasher.Holds (s : Hasher) (st : Bytes × Bytes) : Prop where
  head : st.1.length = 32
  rest : st.2.length = s.curPos
  curBuf : ∃ tail : Bytes, tail.length = 32 - s.curPos ∧ s.curBuf = st.1 ++ (st.2 ++ tail)
  result : s.result.length = 64

theorem Hasher.Holds.digest {s : Hasher} {st : Bytes × Bytes} (h : s.Holds st) {data : Bytes}
    (hdata : data.length = 32 - s.curPos) :
    (s.digest F data).Holds (compress F st.1 (st.2 ++ data), []) := by
  obtain ⟨tail, htail, hbuf⟩ := h.curBuf
  have hpos : 32 + s.curPos.val = (st.1 ++ st.2).length := by
    rw [List.length_append, h.head, h.rest]
  have hfull : writeAt s.curBuf (32 + s.curPos) data = st.1 ++ (st.2 ++ data) := by
    have hmid := writeAt_middle (a := st.1 ++ st.2) (b := tail) (c := [])
      (hdata.trans htail.symm)
    rwa [List.append_nil, List.append_nil, ← hpos, List.append_assoc, ← hbuf,
      List.append_assoc] at hmid
  have hlen : (s.digest F data).result.length = 64 := by
    show (writeAt s.curBuf (32 + s.curPos) data).length = 64
    rw [hfull, List.length_append, List.length_append, h.head, h.rest, hdata]
    omega
  refine ⟨compress_length _ _, rfl, ⟨s.result.drop 32, ?_, ?_⟩, hlen⟩
  · rw [List.length_drop, h.result]
    rfl
  · show writeAt s.result 0 (F.haraka512 (writeAt s.curBuf (32 + s.curPos) data)).toList = _
    rw [hfull, writeAt, Vector.length_toList]
    rfl

theorem Hasher.Holds.write {s : Hasher} {st : Bytes × Bytes} (h : s.Holds st) (data : Bytes) :
    (s.write F data).Holds (feed 32 (compress F) st data) := by
  induction hk : data.length using Nat.strongRecOn generalizing s st data with
  | ind k ih =>
    have hrest : st.2.length < 32 := h.rest ▸ s.curPos.isLt
    by_cases hnil : data = []
    · rw [Hasher.write, if_pos hnil, feed, hnil, List.append_nil, absorb_of_lt hrest]
      exact h
    by_cases hfit : s.curPos + data.length < 32
    · rw [Hasher.write, if_neg hnil, dif_pos hfit, feed,
        absorb_of_lt (by rw [List.length_append, h.rest]; exact hfit)]
      obtain ⟨tail, htail, hbuf⟩ := h.curBuf
      refine ⟨h.head, by rw [List.length_append, h.rest], ⟨tail.drop data.length, ?_, ?_⟩, h.result⟩
      · rw [List.length_drop, htail]
        show 32 - s.curPos.val - data.length = 32 - (s.curPos.val + data.length)
        omega
      · show writeAt s.curBuf (32 + s.curPos) data = _
        have hpos : 32 + s.curPos.val = (st.1 ++ st.2).length := by
          rw [List.length_append, h.head, h.rest]
        rw [hbuf, ← List.append_assoc, hpos, writeAt_behind]
        simp only [List.append_assoc]
    · rw [Hasher.write, if_neg hnil, dif_neg hfit]
      have htake : (data.take (32 - s.curPos)).length = 32 - s.curPos := by
        rw [List.length_take]
        omega
      have hdrop : (data.drop (32 - s.curPos)).length < k :=
        hk ▸ drop_decreases hnil (room_pos s.curPos)
      have hblock : (st.2 ++ data.take (32 - s.curPos)).length = 32 := by
        rw [List.length_append, h.rest, htake]
        omega
      have hfeed : feed 32 (compress F) st data = feed 32 (compress F)
          (compress F st.1 (st.2 ++ data.take (32 - s.curPos)), []) (data.drop (32 - s.curPos)) := by
        rw [feed, feed, List.nil_append, ← absorb_block (by decide) hblock, List.append_assoc,
          List.take_append_drop]
      rw [hfeed]
      exact ih _ hdrop (h.digest htake) _ rfl

/-- The buffers have 64 bytes each. -/
def Hasher.Sized (s : Hasher) : Prop := s.curBuf.length = 64 ∧ s.result.length = 64

theorem Hasher.Sized.reset {s : Hasher} (h : s.Sized) :
    s.reset.Holds (List.replicate 32 0, []) := by
  refine ⟨rfl, rfl, ⟨List.replicate 32 0, rfl, rfl⟩, ?_⟩
  show (if s.swapped then s.curBuf else s.result).length = 64
  split
  · exact h.1
  · exact h.2

theorem Hasher.Holds.sized {s : Hasher} {st : Bytes × Bytes} (h : s.Holds st) : s.Sized := by
  obtain ⟨tail, htail, hbuf⟩ := h.curBuf
  refine ⟨?_, h.result⟩
  rw [hbuf, List.length_append, List.length_append, h.head, h.rest, htail]
  omega

/-- After `Reset` and any pieces of data. -/
theorem Hasher.Sized.writes {s : Hasher} (h : s.Sized) (pieces : List Bytes) :
    (pieces.foldl (Hasher.write F) s.reset).Holds
      (absorb 32 (compress F) (List.replicate 32 0) pieces.flatten) := by
  rw [← foldl_feed (by decide)]
  have hfold : ∀ (s : Hasher) (st : Bytes × Bytes), s.Holds st →
      (pieces.foldl (Hasher.write F) s).Holds (pieces.foldl (feed 32 (compress F)) st) := by
    induction pieces with
    | nil => exact fun s st h => h
    | cons data pieces ih => exact fun s st h => ih _ _ (h.write data)
  exact hfold _ _ h.reset

theorem hashLoop_eq {head : Bytes} (hhead : head.length = 32) (data : Bytes) :
    hashLoop F head data =
      if (absorb 32 (compress F) head data).2 = [] then (absorb 32 (compress F) head data).1
      else (F.haraka512 ((absorb 32 (compress F) head data).1 ++
        (absorb 32 (compress F) head data).2 ++
        List.replicate (32 - (absorb 32 (compress F) head data).2.length) 0)).toList := by
  induction hk : data.length using Nat.strongRecOn generalizing head data with
  | ind k ih =>
    by_cases hnil : data = []
    · rw [hashLoop, if_pos hnil, hnil, absorb_of_lt (by decide), if_pos rfl]
    by_cases hlen : 32 ≤ data.length
    · obtain ⟨block, rest, rfl, hb⟩ := exists_block hlen
      rw [hashLoop, if_neg hnil, if_pos hlen, List.take_left' hb, List.drop_left' hb,
        absorb_block (by decide) hb]
      rw [List.length_append] at hk
      exact ih rest.length (by omega) (compress_length head block) rest rfl
    · rw [hashLoop, if_neg hnil, if_neg hlen, absorb_of_lt (by omega), if_neg hnil]

theorem Hasher.Holds.finalize {s : Hasher} {st : Bytes × Bytes} (h : s.Holds st) :
    s.finalize F = if st.2 = [] then st.1
      else (F.haraka512 (st.1 ++ st.2 ++ List.replicate (32 - st.2.length) 0)).toList := by
  obtain ⟨tail, htail, hbuf⟩ := h.curBuf
  by_cases hnil : st.2 = []
  · have hpos : s.curPos = 0 := by
      have hlen := h.rest
      rw [hnil] at hlen
      exact Fin.ext hlen.symm
    rw [Hasher.finalize, if_neg (not_not.mpr hpos), if_pos hnil, hbuf]
    exact List.take_left' h.head
  · have hpos : s.curPos ≠ 0 := by
      intro h0
      have hlen := h.rest
      rw [h0] at hlen
      exact hnil (List.eq_nil_of_length_eq_zero hlen)
    have hstart : 32 + s.curPos.val = (st.1 ++ st.2).length := by
      rw [List.length_append, h.head, h.rest]
    rw [Hasher.finalize, if_pos hpos, if_neg hnil, hbuf, ← List.append_assoc, hstart,
      writeAt_behind, List.length_replicate, h.rest, List.drop_of_length_le (by omega),
      List.append_nil]

/-- Whatever a hasher was used for before, after `Reset` it gives the hash that
`CVerusHashV2::Hash` gives for the data at once, in however many pieces the data was written. -/
theorem finalize_writes_eq_hash (s : Hasher) (h : s.Sized) (pieces : List Bytes) :
    (pieces.foldl (Hasher.write F) s.reset).finalize F = hash F pieces.flatten := by
  rw [(h.writes pieces).finalize, hash, hashLoop_eq (by decide)]

/-- The Haraka hash of 64 zero bytes; nothing else of Haraka is looked at here. -/
def zeroBlock : Haraka where
  haraka512 := fun _ => #v[97, 101, 69, 75, 97, 218, 233, 181, 61, 8, 107, 26, 1, 214, 118, 74,
    145, 27, 42, 71, 7, 205, 35, 100, 10, 177, 72, 179, 219, 101, 202, 243]
  haraka256 := fun _ => Vector.replicate 32 0
  haraka512Keyed := fun _ _ => Vector.replicate 32 0
  clCase := fun acc _ _ => (acc, [])
  clReduce := fun _ => 0

/-- A new hasher on memory that is not clear. -/
def newHasher : Hasher := ⟨List.replicate 64 0, List.replicate 64 7, false, 0⟩

theorem newHasher_sized : newHasher.Sized := ⟨rfl, rfl⟩

theorem finalize_writes_eq_hash_pieces :
    ([List.replicate 30 0, List.replicate 2 0].foldl (Hasher.write zeroBlock)
      newHasher.reset).finalize zeroBlock =
      hash zeroBlock [List.replicate 30 0, List.replicate 2 0].flatten :=
  finalize_writes_eq_hash newHasher newHasher_sized _

/-! ## Filling up the buffer -/

/-- The first `n` bytes of `data` over and over. -/
def repeated (data : Bytes) (n : Nat) : Bytes :=
  (List.range n).map (fun i => data.getD (i % data.length) 0)

theorem repeated_length (data : Bytes) (n : Nat) : (repeated data n).length = n := by
  rw [repeated, List.length_map, List.length_range]

theorem repeated_eq_take {data : Bytes} {n : Nat} (h : n ≤ data.length) :
    repeated data n = data.take n := by
  refine List.ext_getElem (by rw [repeated_length, List.length_take_of_le h]) ?_
  intro i hi hi'
  rw [repeated_length] at hi
  simp [repeated, Nat.mod_eq_of_lt (Nat.lt_of_lt_of_le hi h), Nat.lt_of_lt_of_le hi h]

theorem repeated_add_length (data : Bytes) (n : Nat) :
    repeated data (data.length + n) = data ++ repeated data n := by
  have hfirst : (List.range data.length).map (fun i => data.getD (i % data.length) 0) = data := by
    have htake := repeated_eq_take (Nat.le_refl data.length)
    rwa [List.take_length] at htake
  rw [repeated, List.range_add, List.map_append, hfirst, List.map_map, repeated]
  refine congrArg (data ++ ·) (List.map_congr_left fun i _ => ?_)
  rw [Function.comp_apply, Nat.add_mod_left]

/-- The loop of `FillExtra` writes the data over and over to the end of the buffer. -/
theorem fillLoop_eq {data : Bytes} (hdata : data ≠ []) {done tail : Bytes} {pos : Nat}
    (hpos : 32 + pos = done.length) :
    fillLoop data (done ++ tail) pos tail.length = done ++ repeated data tail.length := by
  have hlen := List.length_pos_of_ne_nil hdata
  induction hk : tail.length using Nat.strongRecOn generalizing done tail pos with
  | ind k ih =>
    rw [fillLoop]
    by_cases hzero : k = 0
    · rw [if_neg (by omega), List.eq_nil_of_length_eq_zero (hk.trans hzero), hzero]
      rfl
    rw [if_pos ⟨Nat.pos_of_ne_zero hzero, hlen⟩, hpos, writeAt_behind, List.length_take]
    have hdrop : (tail.drop (min k data.length)).length = k - min k data.length := by
      rw [List.length_drop, hk]
    have hnext : 32 + (pos + min k data.length) = (done ++ data.take k).length := by
      rw [List.length_append, List.length_take]
      omega
    rw [ih _ (fill_decreases ⟨Nat.pos_of_ne_zero hzero, hlen⟩) hnext hdrop, List.append_assoc]
    refine congrArg (done ++ ·) ?_
    by_cases hle : k ≤ data.length
    · rw [Nat.min_eq_left hle, Nat.sub_self, repeated_eq_take hle]
      exact List.append_nil _
    · obtain ⟨n, rfl⟩ := Nat.exists_eq_add_of_le (Nat.le_of_not_le hle)
      rw [Nat.min_eq_right (Nat.le_add_right _ n), Nat.add_sub_cancel_left, repeated_add_length,
        List.take_of_length_le (Nat.le_add_right _ n)]

theorem Hasher.Holds.fillExtra {s : Hasher} {st : Bytes × Bytes} (h : s.Holds st) {data : Bytes}
    (hdata : data ≠ []) :
    (s.fillExtra data).curBuf = st.1 ++ (st.2 ++ repeated data (32 - st.2.length)) := by
  obtain ⟨tail, htail, hbuf⟩ := h.curBuf
  have hpos : 32 + s.curPos.val = (st.1 ++ st.2).length := by
    rw [List.length_append, h.head, h.rest]
  rw [Hasher.fillExtra, hbuf, ← List.append_assoc, ← htail, fillLoop_eq hdata hpos, htail, h.rest,
    List.append_assoc]

theorem Hasher.Holds.of_fillExtra {s : Hasher} {st : Bytes × Bytes} (h : s.Holds st) {data : Bytes}
    (hdata : data ≠ []) : (s.fillExtra data).Holds st :=
  ⟨h.head, h.rest, ⟨repeated data (32 - st.2.length), by rw [repeated_length, h.rest]; rfl,
    h.fillExtra hdata⟩, h.result⟩

/-! ## The key -/

theorem chain_length (n : Nat) (src : Bytes) : (chain F n src).length = 32 * n := by
  induction n generalizing src with
  | zero => rfl
  | succ n ih => rw [chain, List.length_append, ih, Vector.length_toList, Nat.mul_succ, Nat.add_comm]

theorem newKey_length (seed : Bytes) : (newKey F seed).length = keySize := chain_length _ _

theorem clStore_length {key : Bytes} {i : Nat} {block : Vector UInt8 16}
    (h : 16 * i + 16 ≤ key.length) : (clStore key i block).length = key.length := by
  rw [clStore, writeAt, List.length_append, List.length_append, List.length_take, List.length_drop,
    Vector.length_toList]
  omega

/-- A store leaves what lies behind it. -/
theorem drop_clStore {key : Bytes} {i n : Nat} {block : Vector UInt8 16} (hi : 16 * i + 16 ≤ n)
    (hn : n ≤ key.length) : (clStore key i block).drop n = key.drop n := by
  have hlen : (key.take (16 * i) ++ block.toList).length = 16 * i + 16 := by
    rw [List.length_append, List.length_take_of_le (by omega), Vector.length_toList]
  rw [clStore, writeAt, Vector.length_toList, List.drop_append, hlen, List.drop_drop,
    List.drop_of_length_le (by rw [hlen]; exact hi), List.nil_append]
  congr 1
  omega

/-- The key is as long as before, and the part that a hash does not refresh is as before. -/
def SameTail (key key' : Bytes) : Prop :=
  key'.length = key.length ∧ key'.drop refreshSize = key.drop refreshSize

theorem SameTail.store {key key' : Bytes} (h : SameTail key key') (hkey : refreshSize ≤ key.length)
    {i : Nat} (hi : i < refreshSize / 16) (block : Vector UInt8 16) :
    SameTail key (clStore key' i block) := by
  have hbound : 16 * i + 16 ≤ refreshSize := by
    rw [refreshSize_eq] at hi ⊢
    omega
  have hlen : refreshSize ≤ key'.length := h.1 ▸ hkey
  exact ⟨(clStore_length (hbound.trans hlen)).trans h.1, (drop_clStore hbound hlen).trans h.2⟩

theorem SameTail.clRound {key : Bytes} {st : Bytes × Bytes} (h : SameTail key st.2)
    (hkey : refreshSize ≤ key.length) (buf : Bytes) : SameTail key (clRound F buf st).2 := by
  have hpos : 0 < refreshSize / 16 := by decide
  suffices hstores : ∀ (stores : List (Bool × Vector UInt8 16)) (prand prandex : Nat) (key' : Bytes),
      prand < refreshSize / 16 → prandex < refreshSize / 16 → SameTail key key' →
      SameTail key (stores.foldl
        (fun key s => clStore key (if s.1 then prand else prandex) s.2) key') from
    hstores _ _ _ _ (Nat.mod_lt _ hpos) (Nat.mod_lt _ hpos) h
  intro stores prand prandex key' hprand hprandex
  induction stores generalizing key' with
  | nil => exact id
  | cons store stores ih =>
    intro h
    refine ih _ (h.store hkey ?_ store.2)
    split
    · exact hprand
    · exact hprandex

/-- `verusclhash` spoils the refreshed part of the key only. -/
theorem verusclhash_sameTail {key : Bytes} (hkey : refreshSize ≤ key.length) (buf : Bytes) :
    SameTail key (verusclhash F key buf).2 := by
  suffices hrounds : ∀ (rounds : List Nat) (st : Bytes × Bytes), SameTail key st.2 →
      SameTail key (rounds.foldl (fun st _ => clRound F buf st) st).2 from
    hrounds _ _ ⟨rfl, rfl⟩
  intro rounds
  induction rounds with
  | nil => exact fun st h => h
  | cons _ rounds ih => exact fun st h => ih _ (h.clRound hkey buf)

/-- The seed of a new descriptor, which belongs to no key yet. -/
def noSeed : Bytes := List.replicate 32 0

/-- What the cache of a thread holds after a hash: the part of the key that is not refreshed and
the copy of the other part are those of the seed. -/
structure KeyCache.Holds (F : Haraka) (c : KeyCache) : Prop where
  refresh : c.refresh = (newKey F c.seed).take refreshSize
  rest : c.key.drop refreshSize = (newKey F c.seed).drop refreshSize

/-- The key that is handed out belongs to the seed, whether it is generated or refreshed. -/
theorem genNewCLKey_eq {c : KeyCache} {seed : Bytes} (h : c.seed = seed → c.Holds F) :
    genNewCLKey F c seed = ⟨seed, newKey F seed, (newKey F seed).take refreshSize⟩ := by
  by_cases hsame : c.seed = seed
  · have hholds := h hsame
    subst hsame
    rw [genNewCLKey, if_neg (not_not.mpr rfl), hholds.rest, hholds.refresh,
      List.take_append_drop, ← hholds.refresh]
  · rw [genNewCLKey, if_pos hsame]

/-! ## The whole hash -/

/-- VerusHash 2.2 as a function of the data: the chained blocks, the buffer filled up with the
start of the result, the hash under a key made from the result, and the hash of the buffer filled
up with the outcome under the spoilt key. -/
def verusHash2b2 (F : Haraka) (data : Bytes) : Bytes :=
  let st := absorb 32 (compress F) (List.replicate 32 0) data
  let fill := fun extra => st.1 ++ (st.2 ++ repeated extra (32 - st.2.length))
  let r := verusclhash F (newKey F st.1) (fill (st.1.take 16))
  (F.haraka512Keyed (fill (leBytes 8 r.1.toNat))
    (r.2.drop (16 * (r.1.toNat % (refreshSize / 16))))).toList

/-- The result of the chained blocks, from which the key of a hash is made. -/
def keySeed (F : Haraka) (data : Bytes) : Bytes :=
  (absorb 32 (compress F) (List.replicate 32 0) data).1

theorem Hasher.Holds.take_curBuf {s : Hasher} {st : Bytes × Bytes} (h : s.Holds st) {n : Nat}
    (hn : n ≤ 32) : s.curBuf.take n = st.1.take n := by
  obtain ⟨tail, -, hbuf⟩ := h.curBuf
  rw [hbuf, List.take_append_of_le_length (h.head ▸ hn)]

/-- One hash: the function of the data, and the hasher and the cache ready for the next. -/
theorem verushashV2b2_spec {s : Hasher} (hs : s.Sized) {c : KeyCache} (data : Bytes)
    (hc : c.seed = keySeed F data → c.Holds F) :
    (verushashV2b2 F s c data).1 = verusHash2b2 F data ∧
      (verushashV2b2 F s c data).2.1.Sized ∧ (verushashV2b2 F s c data).2.2.Holds F := by
  have hwrite := hs.writes (F := F) [data]
  rw [List.flatten_singleton] at hwrite
  change (s.reset.write F data).Holds _ at hwrite
  rw [keySeed] at hc
  rw [verushashV2b2, Hasher.finalize2b, verusHash2b2, hwrite.take_curBuf (by decide)]
  generalize s.reset.write F data = s₁ at hwrite ⊢
  generalize absorb 32 (compress F) (List.replicate 32 0) data = st at hwrite hc ⊢
  have hfirst : st.1.take 16 ≠ [] := by
    refine List.ne_nil_of_length_pos ?_
    rw [List.length_take, hwrite.head]
    decide
  have h₂ := hwrite.of_fillExtra hfirst
  have htake : (s₁.fillExtra (st.1.take 16)).curBuf.take 32 = st.1 := by
    rw [h₂.take_curBuf (Nat.le_refl 32), List.take_of_length_le (Nat.le_of_eq h₂.head)]
  rw [htake, genNewCLKey_eq hc, hwrite.fillExtra hfirst]
  have hinter : ∀ n, leBytes 8 n ≠ [] := fun n => List.ne_nil_of_length_pos (by
    rw [leBytes_length]
    decide)
  have hkey : refreshSize ≤ (newKey F st.1).length := by
    rw [newKey_length]
    decide
  have htail := (verusclhash_sameTail (F := F) hkey
    (st.1 ++ (st.2 ++ repeated (st.1.take 16) (32 - st.2.length)))).2
  exact ⟨by rw [h₂.fillExtra (hinter _)], (h₂.of_fillExtra (hinter _)).sized,
    ⟨rfl, htail⟩⟩

/-- The hashes of a thread, one after the other with one hasher and one cache. -/
def verushashes (F : Haraka) (s : Hasher) (c : KeyCache) : List Bytes → List Bytes
  | [] => []
  | data :: rest =>
    let r := verushashV2b2 F s c data
    r.1 :: verushashes F r.2.1 r.2.2 rest

theorem verushashes_of_holds {s : Hasher} {c : KeyCache} (hs : s.Sized) (hc : c.Holds F)
    (messages : List Bytes) : verushashes F s c messages = messages.map (verusHash2b2 F) := by
  induction messages generalizing s c with
  | nil => rfl
  | cons data rest ih =>
    obtain ⟨hhash, hs', hc'⟩ := verushashV2b2_spec hs data fun _ => hc
    rw [verushashes, List.map_cons, hhash, ih hs' hc']

/-- Every hash of a thread is the function of its data, from a new descriptor on and whatever the
key memory and the buffers of the hasher held at first. The first data must not chain to 32 zero
bytes: for that seed a new descriptor takes the memory as it is for the key. -/
theorem verushashes_eq_map (s : Hasher) (c : KeyCache) (first : Bytes) (messages : List Bytes)
    (hs : s.Sized) (hc : c.seed = noSeed) (hseed : keySeed F first ≠ noSeed) :
    verushashes F s c (first :: messages) = (first :: messages).map (verusHash2b2 F) := by
  obtain ⟨hhash, hs', hc'⟩ := verushashV2b2_spec hs first
    fun h => absurd (h.symm.trans hc) hseed
  rw [verushashes, List.map_cons, hhash, verushashes_of_holds hs' hc']

/-- The memory of a new cache, with the descriptor's seed of zeros. -/
def newCache : KeyCache := ⟨noSeed, List.replicate keySize 7, List.replicate refreshSize 7⟩

theorem verushashes_eq_map_zeros :
    verushashes zeroBlock newHasher newCache [List.replicate 32 0, List.replicate 32 0] =
      [List.replicate 32 0, List.replicate 32 0].map (verusHash2b2 zeroBlock) :=
  verushashes_eq_map newHasher newCache _ _ newHasher_sized rfl (by decide +kernel)

end SickPool.Crypto.VerusHash
