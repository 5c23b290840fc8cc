import SickPool.Persistence.Balances
import SickPool.Stratum.HandleAuthorize
import SickPool.Stratum.HandleShare

/-!
# Logins under an alias

The daemon resolves an alias to an address, and `GetMiner` looks for a row of that address
or of that alias. The last row found is the miner that is authorised. After the alias has
moved to another address, that may be the row of the address it belonged to before.
-/
namespace SickPool.Stratum

open SickPool.Library SickPool.Library.Bytes SickPool.Persistence SickPool.Stats
open SickPool.Round (RoundDb SqlAnswers emptyStore)

variable {p : StratumProtocol} {k : KeyNames} {answers : SqlAnswers}

/-- The keys of `addresses`: ids of their own, in the range of `INT UNSIGNED` and below the
next one. -/
structure AddressKeys (db : Db) : Prop where
  ids : (db.addresses.map (·.id)).Nodup
  range : ∀ r ∈ db.addresses, r.id < uint32Size
  fresh : ∀ r ∈ db.addresses, r.id < db.nextAddress

/-- A row that holds the alias and is of another address has the row of the address somewhere
behind it. -/
def AliasFollowed (rows : List AddressRow) (address ali : Bytes) : Prop :=
  ali ≠ [] → ∀ before r after, rows = before ++ r :: after → r.ali = some ali →
    r.address ≠ address → ∃ r' ∈ after, r'.address = address

/-- The condition of `GetMiner`; an empty alias is `NULL` there. -/
def Found (address ali : Bytes) (r : AddressRow) : Prop :=
  r.address = address ∨ ali ≠ [] ∧ r.ali = some ali

instance (address ali : Bytes) (r : AddressRow) : Decidable (Found address ali r) :=
  inferInstanceAs (Decidable (_ ∨ _))

def matching (rows : List AddressRow) (address ali : Bytes) : List AddressRow :=
  rows.filter (fun r => decide (Found address ali r))

theorem getMiner_eq (db : Db) (address ali : Bytes) :
    db.getMiner address (Sql.aliasParam ali) =
      (matching db.addresses address ali).map (fun r => (r.id, r.ali)) := by
  unfold Db.getMiner matching
  congr 1
  apply List.filter_congr
  intro r _
  unfold Sql.aliasParam Found
  by_cases hne : ali = [] <;> simp [hne]

theorem aliasFollowed_cons {rows : List AddressRow} {r : AddressRow} {address ali : Bytes} :
    AliasFollowed (r :: rows) address ali ↔
      (ali ≠ [] → r.ali = some ali → r.address ≠ address → ∃ r' ∈ rows, r'.address = address) ∧
        AliasFollowed rows address ali := by
  constructor
  · intro h
    exact ⟨fun hne => h hne [] r rows rfl, fun hne before s after heq =>
      h hne (r :: before) s after (by rw [heq]; rfl)⟩
  · rintro ⟨hr, hrows⟩ hne before s after heq
    cases before with
    | nil =>
      obtain ⟨rfl, rfl⟩ := List.cons.inj heq
      exact hr hne
    | cons t before =>
      obtain ⟨rfl, rfl⟩ := List.cons.inj heq
      exact hrows hne before s after rfl

/-- The last row found is of the address exactly if every other holder of the alias is
followed by it. -/
theorem matching_last_iff (rows : List AddressRow) (address ali : Bytes) :
    (∀ r ∈ (matching rows address ali).getLast?, r.address = address) ↔
      AliasFollowed rows address ali := by
  induction rows with
  | nil => simp [matching, AliasFollowed]
  | cons r rows ih =>
    rw [aliasFollowed_cons, ← ih]
    by_cases hr : Found address ali r
    · have hm : matching (r :: rows) address ali = r :: matching rows address ali := by
        simp [matching, hr]
      rw [hm]
      cases hrest : matching rows address ali with
      | nil =>
        have hnone : ∀ r' ∈ rows, r'.address ≠ address := by
          intro r' hmem haddr
          have hin : r' ∈ matching rows address ali := by
            simp [matching, Found, hmem, haddr]
          rw [hrest] at hin
          cases hin
        simp only [List.getLast?_singleton, Option.mem_some_iff, forall_eq', List.getLast?_nil,
          Option.not_mem_none, false_implies, implies_true, and_true]
        constructor
        · exact fun haddr _ _ hne => absurd haddr hne
        · intro h
          by_contra hne
          obtain ⟨hali, hmatch⟩ := hr.resolve_left hne
          obtain ⟨r', hmem, haddr⟩ := h hali hmatch hne
          exact hnone r' hmem haddr
      | cons q rest =>
        rw [List.getLast?_cons_cons]
        refine ⟨fun h => ⟨fun _ _ _ => ?_, h⟩, fun h => h.2⟩
        have hlast := List.getLast?_eq_some_getLast (List.cons_ne_nil q rest)
        have hin : (q :: rest).getLast (List.cons_ne_nil q rest) ∈ matching rows address ali := by
          rw [hrest]
          exact List.getLast_mem _
        exact ⟨_, List.mem_of_mem_filter hin, h _ hlast⟩
    · have hm : matching (r :: rows) address ali = matching rows address ali := by
        simp [matching, hr]
      rw [hm]
      refine ⟨fun h => ⟨fun hali hmatch _ => ?_, h⟩, fun h => h.2⟩
      exact absurd (.inr ⟨hali, hmatch⟩) hr

/-! ## The calls to the database -/

theorem getMinerId_fst (sql : Sql) (address ali : Bytes) :
    (sql.getMinerId address ali).1 =
      (matching sql.db.addresses address ali).getLast?.map (·.id) := by
  unfold Sql.getMinerId
  rw [getMiner_eq, List.getLast?_map]
  cases (matching sql.db.addresses address ali).getLast? <;> rfl

/-- A new row holds the address, and is the last one found. -/
theorem sql_addMiner_inv {sql sql' : Sql} {address ali : Bytes} {minPayout time id : Nat}
    (h : sql.addMiner address ali time minPayout = (sql', some id)) :
    id = sql.db.nextAddress ∧ id < uint32Size ∧
      sql'.db.addresses = sql.db.addresses ++ [⟨id, address, Sql.aliasParam ali⟩] := by
  unfold Sql.addMiner at h
  split at h
  · rename_i sql₁ hex
    obtain ⟨hdb, hok⟩ := sql.execute_up (·.addMiner address (Sql.aliasParam ali) minPayout time)
    rw [hex] at hdb hok
    obtain ⟨rfl, hid⟩ := Prod.mk.inj h
    unfold Db.addMiner at hdb hok
    split at hok
    · rename_i hins
      rw [if_pos hins] at hdb
      have hrows : sql₁.db.addresses =
          sql.db.addresses ++ [⟨sql.db.nextAddress, address, Sql.aliasParam ali⟩] :=
        congrArg Db.addresses hdb
      have hlast : (matching sql₁.db.addresses address ali).getLast? =
          some ⟨sql.db.nextAddress, address, Sql.aliasParam ali⟩ := by
        rw [hrows]
        simp [matching, Found]
      rw [getMinerId_fst, hlast] at hid
      obtain rfl := Option.some.inj hid
      exact ⟨rfl, hins.1, hrows⟩
    · cases hok
  · cases h

/-- The id of the miner: that of the last row found, or that of a new row. -/
theorem addMiner_cases {db db' : RoundDb} {address ali : Bytes} {minPayout time id : Nat}
    (h : StatsManager.addMiner (RoundDb.roundLayer k answers) db (db.sql.getMinerId address ali).1
      address ali minPayout time = (db', some id)) :
    (∃ r, (matching db.sql.db.addresses address ali).getLast? = some r ∧ r.id = id ∧ db' = db) ∨
      (matching db.sql.db.addresses address ali = [] ∧ id = db.sql.db.nextAddress ∧
        id < uint32Size ∧ db'.sql.db.addresses =
          db.sql.db.addresses ++ [⟨id, address, Sql.aliasParam ali⟩]) := by
  rw [getMinerId_fst] at h
  cases hlast : (matching db.sql.db.addresses address ali).getLast? with
  | some r =>
    rw [hlast] at h
    obtain ⟨rfl, hid⟩ := Prod.mk.inj h
    exact .inl ⟨r, rfl, Option.some.inj hid, rfl⟩
  | none =>
    rw [hlast] at h
    rcases hadd : db.sql.addMiner address ali time minPayout with ⟨sql₁, minerId⟩
    have hcall : (RoundDb.roundLayer k answers).addMiner db address ali time minPayout =
        ({ db with sql := sql₁ }, minerId) := by
      simp only [RoundDb.roundLayer, RoundDb.onSql, hadd]
    simp only [StatsManager.addMiner, Option.map_none, hcall] at h
    cases minerId with
    | none => cases h
    | some minerId =>
      obtain ⟨rfl, hid⟩ := Prod.mk.inj h
      rw [hid] at hadd
      exact .inr ⟨List.getLast?_eq_none_iff.mp hlast, sql_addMiner_inv hadd⟩

theorem updateAlias_rows (sql : Sql) (id : Nat) (ali : Bytes) :
    (sql.updateAlias id ali).1.db.addresses.map (fun r => (r.id, r.address)) =
      sql.db.addresses.map (fun r => (r.id, r.address)) := by
  rw [Sql.updateAlias, (sql.execute_up (·.updateAlias ali id)).1]
  unfold Db.updateAlias
  split
  · rw [List.map_map]
    apply List.map_congr_left
    intro r _
    simp only [Function.comp_apply]
    split <;> rfl
  · rfl

theorem sql_addWorker_addresses (sql : Sql) (minerId : Nat) (name : Bytes) (joinTime : Nat) :
    (sql.addWorker minerId name joinTime).1.db.addresses = sql.db.addresses := by
  have hdb := (sql.execute_up (·.addWorker minerId name joinTime)).1
  have hrows := (Db.addWorker_frame sql.db minerId name joinTime).1
  unfold Sql.addWorker
  split
  · rename_i sql₁ hex
    rw [hex] at hdb
    rw [← hrows, ← hdb]
  · rename_i sql₁ hex
    rw [hex] at hdb
    rw [← hrows, ← hdb]

theorem addWorker_addresses (k : KeyNames) (answers : SqlAnswers) (db : RoundDb)
    (workerId : Option Nat) (minerId : Nat) (address name ali : Bytes) (curtime : Nat) :
    (StatsManager.addWorker (RoundDb.roundLayer k answers) db workerId minerId address name ali
      curtime).1.sql.db.addresses = db.sql.db.addresses := by
  cases workerId with
  | some id => rfl
  | none =>
    have hrows := sql_addWorker_addresses db.sql (minerId % uint32Size) name curtime
    unfold StatsManager.addWorker
    simp only [RoundDb.roundLayer, RoundDb.onSql]
    split <;> exact hrows

/-! ## The miner that is authorised -/

/-- The login authorises `fid`: it is given to `AuthorizeWorker` with the iterator of a new
entry of the statistics, which is `fid`'s. -/
def Authorises (cli : StratumClient) (worker : Bytes) (o : AuthOutcome p RoundDb) (fid : FullId) :
    Prop :=
  ∃ it, o.client = cli.authorizeWorker fid worker it ∧
    o.server.statsManager.workerStatsMap[it]? = some (fid, WorkerStats.empty)

theorem Granted.authorises {env : Env RoundDb} {srv : Server p RoundDb} {cli : StratumClient}
    {address worker : Bytes} {time curtime : Nat}
    (g : Granted env srv cli address worker time curtime) (fid : FullId) :
    Authorises cli worker (handleAuthorize env srv cli address worker time curtime) fid ↔
      fid = FullId.ofIds g.minerId g.workerId := by
  unfold Authorises
  rw [g.outcome]
  simp only [StatsManager.addExistingWorker]
  constructor
  · rintro ⟨it, hcli, hentry⟩
    have hit : srv.statsManager.workerStatsMap.length = it := congrArg StratumClient.statsIt hcli
    rw [← hit, List.getElem?_concat_length] at hentry
    exact (Prod.mk.inj (Option.some.inj hentry)).1.symm
  · rintro rfl
    exact ⟨_, rfl, List.getElem?_concat_length⟩

theorem mem_rows_iff {rows : List AddressRow} {address : Bytes} {id : Nat} :
    (∃ r ∈ rows, r.address = address ∧ id = r.id) ↔
      (id, address) ∈ rows.map (fun r => (r.id, r.address)) := by
  rw [List.mem_map]
  constructor
  · rintro ⟨r, hr, rfl, rfl⟩
    exact ⟨r, hr, rfl⟩
  · rintro ⟨r, hr, he⟩
    obtain ⟨rfl, rfl⟩ := Prod.mk.inj he
    exact ⟨r, hr, rfl, rfl⟩

theorem resolveAddress_alias {env : Env RoundDb} {ali address resolved ali' : Bytes}
    (hres : env.getAliasAddress ali = some address)
    (h : resolveAddress env (64 :: ali) = .ok (resolved, ali')) :
    resolved = address ∧ ali' = ali := by
  unfold resolveAddress at h
  simp only [hres] at h
  split at h
  · cases h
  · obtain ⟨rfl, rfl⟩ := Prod.mk.inj (Except.ok.inj h)
    exact ⟨rfl, rfl⟩

/-- The row of the id is the row of the address exactly if no other holder of the alias was
found last. -/
theorem granted_row_iff {env : Env RoundDb} (henv : env.layer = RoundDb.roundLayer k answers)
    {srv : Server p RoundDb} (hkeys : AddressKeys srv.store.sql.db) {cli : StratumClient}
    {login worker : Bytes} {time curtime : Nat} (g : Granted env srv cli login worker time curtime) :
    g.minerId < uint32Size ∧
      ((∃ r ∈ g.stored.sql.db.addresses, r.address = g.resolved ∧ g.minerId = r.id) ↔
        AliasFollowed srv.store.sql.db.addresses g.resolved g.ali) := by
  have hadd := g.addMiner
  have hworker := g.addWorker
  have hupdate := g.updateAlias
  rw [henv] at hadd hworker hupdate
  have hrows : g.stored.sql.db.addresses.map (fun r => (r.id, r.address)) =
      g.added.sql.db.addresses.map (fun r => (r.id, r.address)) := by
    have hsame := addWorker_addresses k answers g.updated
      ((RoundDb.roundLayer k answers).getWorkerId g.updated (g.minerId % uint32Size) worker)
      g.minerId g.resolved worker g.ali curtime
    rw [hworker] at hsame
    rw [hsame]
    rcases hupdate with hup | hup
    · rw [hup]
    · rw [hup]
      exact updateAlias_rows g.added.sql g.minerId g.ali
  rw [mem_rows_iff, hrows, ← mem_rows_iff, ← matching_last_iff]
  rcases addMiner_cases hadd with ⟨r, hlast, hid, hsame⟩ | ⟨hnil, hid, hlt, hnew⟩
  · have hmem : r ∈ srv.store.sql.db.addresses :=
      List.mem_of_mem_filter (List.mem_of_getLast? hlast)
    refine ⟨hid ▸ hkeys.range r hmem, ?_⟩
    rw [hsame, hlast]
    simp only [Option.mem_some_iff, forall_eq']
    constructor
    · rintro ⟨r', hr', haddr, hid'⟩
      rw [Table.eq_of_key hkeys.ids hmem hr' (hid.trans hid')]
      exact haddr
    · exact fun haddr => ⟨r, hmem, haddr, hid.symm⟩
  · refine ⟨hlt, iff_of_true ⟨⟨g.minerId, g.resolved, Sql.aliasParam g.ali⟩, ?_, rfl, rfl⟩ ?_⟩
    · rw [hnew]
      exact List.mem_append_right _ (List.mem_singleton_self _)
    · rw [hnil]
      simp

/-- **Alias logins.** A login under an alias that is answered `OK` authorises the miner of
the resolved address exactly if, in the table before it, every row that holds the alias for
another address has the row of the resolved address somewhere behind it. -/
theorem alias_login_iff {env : Env RoundDb} (henv : env.layer = RoundDb.roundLayer k answers)
    {srv : Server p RoundDb} (hkeys : AddressKeys srv.store.sql.db) (cli : StratumClient)
    (ali : Bytes) {address : Bytes} (worker : Bytes) (time curtime : Nat)
    (hres : env.getAliasAddress ali = some address)
    (hok : (handleAuthorize env srv cli (64 :: ali) worker time curtime).result.code = .OK) :
    (∃ fid, Authorises cli worker (handleAuthorize env srv cli (64 :: ali) worker time curtime) fid ∧
      ∃ r ∈ (handleAuthorize env srv cli (64 :: ali) worker time
        curtime).server.store.sql.db.addresses, r.address = address ∧ fid.minerId = r.id) ↔
      AliasFollowed srv.store.sql.db.addresses address ali := by
  obtain ⟨g⟩ := handleAuthorize_granted hok
  obtain ⟨hresolved, hali⟩ := resolveAddress_alias hres g.resolves
  obtain ⟨hlt, hiff⟩ := granted_row_iff henv hkeys g
  rw [hresolved, hali] at hiff
  rw [← hiff]
  have hid : (FullId.ofIds g.minerId g.workerId).minerId = g.minerId := Nat.mod_eq_of_lt hlt
  have hstore : (handleAuthorize env srv cli (64 :: ali) worker time curtime).server.store =
      g.stored := by rw [g.outcome]
  rw [hstore]
  constructor
  · rintro ⟨fid, hauth, r, hr, haddr, hrid⟩
    obtain rfl := (g.authorises fid).mp hauth
    exact ⟨r, hr, haddr, hid ▸ hrid⟩
  · rintro ⟨r, hr, haddr, hrid⟩
    exact ⟨_, (g.authorises _).mpr rfl, r, hr, haddr, hid.trans hrid⟩

/-! ## An alias that has moved -/

/-- A daemon that resolves every alias to the address `A`. -/
def movedAlias : Env RoundDb :=
  { sampleEnv maxHash with
    validateAliasEncoding := fun _ => true
    getAliasAddress := fun _ => some (ascii "A") }

/-- A server whose miners are given by address and alias. -/
def serverOf (miners : List (Bytes × Option Bytes)) : Server .ZEC RoundDb :=
  { zecServer with
    store := ⟨⟨miners.foldl (fun db m => (db.addMiner m.1 m.2 0 0).1) Db.empty, 0⟩, emptyStore,
      []⟩ }

/-- The alias was of `B`, and `A` joined after it. -/
theorem alias_login_iff_joined_later :
    ∃ fid, Authorises newClient (ascii "w")
        (handleAuthorize movedAlias (serverOf [(ascii "B", some (ascii "x")), (ascii "A", none)])
          newClient (ascii "@x") (ascii "w") 0 0) fid ∧
      ∃ r ∈ (handleAuthorize movedAlias
          (serverOf [(ascii "B", some (ascii "x")), (ascii "A", none)]) newClient (ascii "@x")
          (ascii "w") 0 0).server.store.sql.db.addresses,
        r.address = ascii "A" ∧ fid.minerId = r.id := by
  refine (alias_login_iff rfl ⟨by decide +kernel, by decide +kernel, by decide +kernel⟩ newClient
    (ascii "x") (ascii "w") 0 0 rfl (by decide +kernel)).mpr ?_
  rw [← matching_last_iff]
  decide +kernel

/-- The alias was of `B`, and `A` is new: the login is answered `OK` and authorises the miner
of `B`; there is no row of `A`. -/
theorem moved_alias_credits_old_address :
    (handleAuthorize movedAlias (serverOf [(ascii "B", some (ascii "x"))]) newClient
        (ascii "@x") (ascii "w") 0 0).result.code = .OK ∧
      Authorises newClient (ascii "w")
        (handleAuthorize movedAlias (serverOf [(ascii "B", some (ascii "x"))]) newClient
          (ascii "@x") (ascii "w") 0 0) ⟨1, 1⟩ ∧
      (handleAuthorize movedAlias (serverOf [(ascii "B", some (ascii "x"))]) newClient
        (ascii "@x") (ascii "w") 0 0).server.store.sql.db.addresses =
          [⟨1, ascii "B", some (ascii "x")⟩] ∧
      ¬ ∃ r ∈ (handleAuthorize movedAlias (serverOf [(ascii "B", some (ascii "x"))]) newClient
        (ascii "@x") (ascii "w") 0 0).server.store.sql.db.addresses, r.address = ascii "A" :=
  ⟨by decide +kernel, ⟨0, by decide +kernel, by decide +kernel⟩, by decide +kernel,
    by decide +kernel⟩

end SickPool.Stratum
