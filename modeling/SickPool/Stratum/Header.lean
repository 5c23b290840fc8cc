import SickPool.Stratum.HandleShare

/-!
# The header of a ZEC share

A miner puts its header together from the texts of `mining.notify`, of the answer to
`mining.subscribe` and of its own submit request. `GetHeaderData` puts it together from
the members of the job and the share. The two are the same bytes.
-/
namespace SickPool.Stratum

open SickPool.Library SickPool.Library.Bytes SickPool.Utils SickPool.Crypto SickPool.Jobs
open SickPool.Persistence (uint32Size)

/-! ## Reading the messages -/

def readPrefix (pre text : Bytes) : Option Bytes :=
  if pre.isPrefixOf text then some (text.drop pre.length) else none

def readQuoted : Bytes → Option (Bytes × Bytes)
  | 34 :: rest =>
    match rest.span (· ≠ 34) with
    | (text, _ :: rest) => some (text, rest)
    | (_, []) => none
  | _ => none

def readStrings : Nat → Bytes → Option (List Bytes)
  | 0, _ => some []
  | n + 1, text =>
    match readQuoted text with
    | some (value, 44 :: rest) => (readStrings n rest).map (value :: ·)
    | _ => none

/-- What a miner takes from `mining.notify`. -/
structure NotifyFields where
  jobId : Bytes
  version : Bytes
  prevHash : Bytes
  merkleRoot : Bytes
  saplingRoot : Bytes
  time : Bytes
  bits : Bytes
  deriving DecidableEq

/-- The first seven parameters of a `mining.notify` message. -/
def readNotify (msg : Bytes) : Option NotifyFields :=
  match (readPrefix (ascii "\x7b\"id\":null,\"method\":\"mining.notify\",\"params\":[") msg).bind
      (readStrings 7) with
  | some [jobId, version, prevHash, merkleRoot, saplingRoot, time, bits] =>
    some ⟨jobId, version, prevHash, merkleRoot, saplingRoot, time, bits⟩
  | _ => none

/-- `NONCE_1` in the answer to `mining.subscribe`. -/
def readNonce1 (result : Bytes) : Option Bytes :=
  ((readPrefix (ascii "[null,") result).bind readQuoted).map Prod.fst

theorem readPrefix_append (pre rest : Bytes) : readPrefix pre (pre ++ rest) = some rest := by
  simp [readPrefix]

theorem readQuoted_append {value rest : Bytes} (h : 34 ∉ value) :
    readQuoted (34 :: (value ++ 34 :: rest)) = some (value, rest) := by
  have hspan : (value ++ 34 :: rest).span (· ≠ 34) = (value, 34 :: rest) := by
    rw [List.span_eq_takeWhile_dropWhile]
    have htake : ∀ c ∈ value, decide (c ≠ 34) = true := by
      intro c hc
      exact decide_eq_true (fun he => h (he ▸ hc))
    rw [List.takeWhile_append_of_pos htake, List.dropWhile_append_of_pos htake]
    simp
  simp only [readQuoted, hspan]

theorem readStrings_cons {value rest : Bytes} (n : Nat) (h : 34 ∉ value) :
    readStrings (n + 1) (34 :: (value ++ 34 :: 44 :: rest)) =
      (readStrings n rest).map (value :: ·) := by
  simp only [readStrings, readQuoted_append h]

theorem quote_notMem_of_hex {text : Bytes} (h : ∀ c ∈ text, isHexDigit c = true) : 34 ∉ text := by
  intro hc
  exact absurd (h 34 hc) (by decide)

theorem quote_notMem_hexlify (bs : Bytes) : 34 ∉ hexlify bs :=
  quote_notMem_of_hex (fun _ => isHexDigit_of_mem_hexlify)

theorem quote_notMem_fmtHex (w n : Nat) : 34 ∉ fmtHex w n :=
  quote_notMem_of_hex (fun _ => isHexDigit_of_mem_fmtHex)

/-- The notify message of a job holds the job's id and the texts of its members. -/
theorem readNotify_generateNotifyMessage {jobid : Bytes} (solution : Bytes)
    (version minTime bits : Nat) (prevBlockHash merkleRootHash finalSrootHash : Hash32)
    (hid : 34 ∉ jobid) :
    readNotify (generateNotifyMessage jobid solution version minTime bits prevBlockHash
        merkleRootHash finalSrootHash) =
      some ⟨jobid, fmtHex 8 (bswap 4 version), hexlify prevBlockHash.toList,
        hexlify merkleRootHash.toList, hexlify finalSrootHash.toList,
        fmtHex 8 (bswap 4 minTime), fmtHex 8 (bswap 4 bits)⟩ := by
  have htext : generateNotifyMessage jobid solution version minTime bits prevBlockHash
      merkleRootHash finalSrootHash =
      ascii "\x7b\"id\":null,\"method\":\"mining.notify\",\"params\":[" ++
        (34 :: (jobid ++ 34 :: 44 :: 34 :: (fmtHex 8 (bswap 4 version) ++ 34 :: 44 :: 34 ::
          (hexlify prevBlockHash.toList ++ 34 :: 44 :: 34 :: (hexlify merkleRootHash.toList ++
          34 :: 44 :: 34 :: (hexlify finalSrootHash.toList ++ 34 :: 44 :: 34 ::
          (fmtHex 8 (bswap 4 minTime) ++ 34 :: 44 :: 34 :: (fmtHex 8 (bswap 4 bits) ++ 34 :: 44 ::
          (ascii "true,\"" ++ solution.take 144 ++ ascii "\"]\x7d\n"))))))))) := by
    have h1 : ascii "\x7b\"id\":null,\"method\":\"mining.notify\",\"params\":[\"" =
        ascii "\x7b\"id\":null,\"method\":\"mining.notify\",\"params\":[" ++ [34] := by decide
    have h2 : ascii "\",\"" = [34, 44, 34] := by decide
    have h3 : ascii "\",true,\"" = 34 :: 44 :: ascii "true,\"" := by decide
    unfold generateNotifyMessage
    rw [h1, h2, h3]
    simp only [List.append_assoc, List.cons_append, List.nil_append]
  unfold readNotify
  rw [htext, readPrefix_append, Option.bind_some, readStrings_cons 6 hid,
    readStrings_cons 5 (quote_notMem_fmtHex _ _), readStrings_cons 4 (quote_notMem_hexlify _),
    readStrings_cons 3 (quote_notMem_hexlify _), readStrings_cons 2 (quote_notMem_hexlify _),
    readStrings_cons 1 (quote_notMem_fmtHex _ _), readStrings_cons 0 (quote_notMem_fmtHex _ _)]
  rfl

theorem readNonce1_handleSubscribe (cli : StratumClient) :
    readNonce1 (handleSubscribe cli).msg = some cli.extraNonceHex := by
  have htext : (handleSubscribe cli).msg =
      ascii "[null," ++ (34 :: (cli.extraNonceHex ++ 34 :: ascii "]")) := by
    have h1 : ascii "[null,\"" = ascii "[null," ++ [34] := by decide
    have h2 : ascii "\"]" = 34 :: ascii "]" := by decide
    simp only [handleSubscribe, h1, h2, List.append_assoc, List.cons_append, List.nil_append]
  rw [readNonce1, htext, readPrefix_append, Option.bind_some,
    readQuoted_append (show 34 ∉ cli.extraNonceHex from quote_notMem_hexlify _)]
  rfl

/-! ## The header buffer -/

theorem writes_fill (buff a b c d e f : Bytes) (ha : a.length = 100) (hb : b.length = 4)
    (hc : c.length = 4) (hd : d.length = 4) (he : e.length = 28) (hf : f.length = 1347)
    (hbuff : buff.length = 1487) :
    writeAt (writeAt (writeAt (writeAt (writeAt (writeAt buff 0 a) 100 b) 104 c) 108 d) 112 e) 140 f
      = a ++ b ++ c ++ d ++ e ++ f := by
  have h0 : writeAt buff 0 a = a ++ buff.drop 100 := by
    have h := writeAt_behind [] buff a
    rwa [List.nil_append, List.length_nil, List.nil_append, ha] at h
  have step : ∀ {done rest src : Bytes} {pos : Nat}, done.length = pos →
      writeAt (done ++ rest) pos src = (done ++ src) ++ rest.drop src.length := by
    rintro done rest src pos rfl
    exact writeAt_behind done rest src
  rw [h0, step ha, step (by simp [ha, hb]), step (by simp [ha, hb, hc]),
    step (by simp [ha, hb, hc, hd]), step (by simp [ha, hb, hc, hd, he])]
  rw [hb, hc, hd, he, hf, List.drop_drop, List.drop_drop, List.drop_drop, List.drop_drop,
    List.drop_drop, List.drop_eq_nil_of_le hbuff.le, List.append_nil]

/-- A submit request whose fields have the required lengths is parsed into a share of
these fields; further elements are not looked at. -/
theorem parseShareZec_ok (uninitialised : Nat) (worker : Bytes) {jobId time nonce2 solution : Bytes}
    (more : Params) (hj : jobId.length = 8) (ht : time.length = 8) (hn : nonce2.length = 56)
    (hs : solution.length = 2694) :
    parseShareZec uninitialised
        (some worker :: some jobId :: some time :: some nonce2 :: some solution :: more) =
      .ok ⟨worker, jobId, nonce2, solution,
        bswap 4 (fromChars16 uint32Size uninitialised time)⟩ := by
  simp only [parseShareZec, zecFields, parseShareParams, getArrField, hj, ht, hn, hs, ne_eq,
    not_true_eq_false, false_and, and_false, ↓reduceIte, Except.map, List.getD_cons_zero,
    List.getD_cons_succ]

/-- `GetHeaderData` for a share with a nonce and a solution of the required lengths. -/
theorem getHeaderData_eq (job : JobZec) {buff nonce2 solution : Bytes} (worker jobId : Bytes)
    (time nonce1 : Nat) (hbuff : buff.length = 1487) (hn : nonce2.length = 56)
    (hs : solution.length = 2694) :
    job.getHeaderData buff ⟨worker, jobId, nonce2, solution, time⟩ nonce1 =
      leBytes 4 job.version ++ job.prevBlockHash.toList ++ job.merkleRootHash.toList ++
        job.finalSrootHash.toList ++ leBytes 4 time ++ leBytes 4 job.bits ++ leBytes 4 nonce1 ++
        unhexlify nonce2 ++ unhexlify solution := by
  simp only [JobZec.getHeaderData, List.take_of_length_le hn.le, List.take_of_length_le hs.le]
  exact writes_fill buff
    (leBytes 4 job.version ++ job.prevBlockHash.toList ++ job.merkleRootHash.toList ++
      job.finalSrootHash.toList) (leBytes 4 time) (leBytes 4 job.bits) (leBytes 4 nonce1)
    (unhexlify nonce2) (unhexlify solution) (by simp) (by simp) (by simp) (by simp)
    (by rw [unhexlify_length, hn]) (by rw [unhexlify_length, hs]) hbuff

/-- **Miner and pool build the same header.** For every template, client, buffer and
submit request with fields of the required lengths and a time of hex digits, the share is
parsed and `GetHeaderData` fills the buffer with the bytes of the texts the miner was
sent and has sent; the job id in the notify message is the id of the job. -/
theorem miner_and_pool_header_agree (hashes : Hashes) (jobCount : Nat)
    (bTemplate : BlockTemplateResVrsc) (isPayment : Bool) (cli : StratumClient) (buff : Bytes)
    (uninitialised : Nat) (worker jobId time nonce2 solution : Bytes) (more : Params)
    (hbuff : buff.length = vrscStatic.BLOCK_HEADER_SIZE) (hj : jobId.length = 8)
    (ht : time.length = 8) (hn : nonce2.length = 56) (hs : solution.length = 2694)
    (htime : ∀ c ∈ time, isHexDigit c = true) :
    ∃ share fields nonce1,
      parseShareZec uninitialised
          (some worker :: some jobId :: some time :: some nonce2 :: some solution :: more) =
        .ok share ∧
      readNotify (JobZec.new hashes (fmtHex 8 jobCount) bTemplate isPayment).notifyMsg =
        some fields ∧
      readNonce1 (handleSubscribe cli).msg = some nonce1 ∧
      fields.jobId = (JobZec.new hashes (fmtHex 8 jobCount) bTemplate isPayment).id ∧
      ((JobZec.new hashes (fmtHex 8 jobCount) bTemplate isPayment).getHeaderData buff share
          cli.extraNonce).length = vrscStatic.BLOCK_HEADER_SIZE ∧
      (JobZec.new hashes (fmtHex 8 jobCount) bTemplate isPayment).getHeaderData buff share
          cli.extraNonce =
        unhexlify fields.version ++ unhexlify fields.prevHash ++ unhexlify fields.merkleRoot ++
          unhexlify fields.saplingRoot ++ unhexlify time ++ unhexlify fields.bits ++
          unhexlify nonce1 ++ unhexlify nonce2 ++ unhexlify solution := by
  generalize hjob : JobZec.new hashes (fmtHex 8 jobCount) bTemplate isPayment = job
  have hnotify : readNotify job.notifyMsg = some ⟨job.id, fmtHex 8 (bswap 4 job.version),
      hexlify job.prevBlockHash.toList, hexlify job.merkleRootHash.toList,
      hexlify job.finalSrootHash.toList, fmtHex 8 (bswap 4 job.minTime),
      fmtHex 8 (bswap 4 job.bits)⟩ := by
    subst hjob
    exact readNotify_generateNotifyMessage _ _ _ _ _ _ _ (quote_notMem_fmtHex 8 jobCount)
  have hswap : ∀ n, unhexlify (fmtHex 8 (bswap 4 n)) = leBytes 4 n := by
    intro n
    rw [fmtHex_bswap 4 n, unhexlify_hexlify]
  have htimeBytes : leBytes 4 (bswap 4 (fromChars16 uint32Size uninitialised time)) =
      unhexlify time := leBytes_bswap_fromChars16 (w := 4) ht (by decide) htime
  refine ⟨_, _, _, parseShareZec_ok uninitialised worker more hj ht hn hs, hnotify,
    readNonce1_handleSubscribe cli, rfl, ?_⟩
  rw [getHeaderData_eq job worker jobId _ _ hbuff hn hs, htimeBytes]
  refine ⟨?_, ?_⟩
  · simp [unhexlify_length, ht, hn, hs, vrscStatic]
  · simp only [hswap, unhexlify_hexlify, StratumClient.extraNonceHex]

/-- The header of a request with zeros for nonce and solution. -/
theorem miner_and_pool_header_agree_sample :
    ∃ share fields nonce1,
      parseShareZec 0 [some (ascii "a.w"), some (ascii "00000005"), some (ascii "818f6562"),
        some (List.replicate 56 48), some (List.replicate 2694 48)] = .ok share ∧
      readNotify (JobZec.new (constHashes maxHash) (fmtHex 8 5) (sampleTemplateZec []) true).notifyMsg
        = some fields ∧
      readNonce1 (handleSubscribe newClient).msg = some nonce1 ∧
      fields.jobId = (JobZec.new (constHashes maxHash) (fmtHex 8 5) (sampleTemplateZec []) true).id ∧
      ((JobZec.new (constHashes maxHash) (fmtHex 8 5) (sampleTemplateZec []) true).getHeaderData
          (List.replicate 1487 7) share newClient.extraNonce).length =
        vrscStatic.BLOCK_HEADER_SIZE ∧
      (JobZec.new (constHashes maxHash) (fmtHex 8 5) (sampleTemplateZec []) true).getHeaderData
          (List.replicate 1487 7) share newClient.extraNonce =
        unhexlify fields.version ++ unhexlify fields.prevHash ++ unhexlify fields.merkleRoot ++
          unhexlify fields.saplingRoot ++ unhexlify (ascii "818f6562") ++ unhexlify fields.bits ++
          unhexlify nonce1 ++ unhexlify (List.replicate 56 48) ++
          unhexlify (List.replicate 2694 48) :=
  miner_and_pool_header_agree (constHashes maxHash) 5 (sampleTemplateZec []) true newClient
    (List.replicate 1487 7) 0 (ascii "a.w") (ascii "00000005") (ascii "818f6562")
    (List.replicate 56 48) (List.replicate 2694 48) [] List.length_replicate (by decide)
    (by decide) List.length_replicate List.length_replicate (by decide +kernel)

end SickPool.Stratum
