import QuantAgent.Domain.ClaimOnce
import QuantAgent.Execution.QmtCalls

/-!
# Durable broker identity

Processes that come and go share one identity file.  Whatever one of them sent to the broker, the
file holds the client order of its remark, and a gateway that is constructed later resolves the rows
of the broker by it.  The one exception is the empty client order: it is claimed and sent like any
other, and later skipped when the file is read.
-/

namespace QuantAgent.Execution

open Library Domain SharedLog

variable {V N : Type}

/-! ## Keys and remarks -/

namespace QMTGateway

theorem remarkOfKey_remarkKey (remark : String) : remarkOfKey (remarkKey remark) = some remark := by
  rw [remarkOfKey, remarkKey, String.toList_ofList, if_pos (List.prefix_append _ _),
    List.drop_left, String.ofList_toList]

theorem remarkKey_injective : Function.Injective remarkKey := by
  intro remark remark' h
  have hsome : some remark = some remark' := by
    rw [← remarkOfKey_remarkKey remark, h, remarkOfKey_remarkKey]
  exact Option.some.inj hsome

theorem remarkKey_ne (remark : String) : remarkKey remark ≠ "" := by
  intro h
  have hchars := congrArg String.toList h
  rw [remarkKey, String.toList_ofList] at hchars
  exact absurd (List.append_eq_nil_iff.mp hchars).1 (by decide)

def IdentityRecord (record : ClaimRecord N) (remark clientId : String) : Prop :=
  record.key = remarkKey remark ∧ record.payload.get? "clientOrderId" = some (.str clientId)

def Claimed (records : List (ClaimRecord N)) (remark clientId : String) : Prop :=
  ∃ record ∈ records, IdentityRecord record remark clientId

variable {records : List (ClaimRecord N)}

theorem Claimed.append {remark clientId : String} (h : Claimed records remark clientId)
    (more : List (ClaimRecord N)) :
    Claimed (records ++ more) remark clientId := by
  obtain ⟨record, hmem, hrecord⟩ := h
  exact ⟨record, List.mem_append_left _ hmem, hrecord⟩

/-- The records of an identity file: each can be read back and maps a remark, none repeats a key. -/
structure IdentityLog (records : List (ClaimRecord N)) : Prop where
  sound : ∀ record ∈ records, record.Sound
  identity : ∀ record ∈ records, ∃ remark clientId, IdentityRecord record remark clientId
  distinct : (records.map ClaimRecord.key).Nodup

/-! ## Reading the identity file -/

theorem fold_foldClaim_entries (h : (records.map ClaimRecord.key).Nodup) :
    (fold foldClaim .empty records).entries = records.map fun record ↦ (record.key, record) := by
  induction records using List.reverseRecOn with
  | nil => rfl
  | append_singleton records last ih =>
    rw [List.map_append, List.nodup_append] at h
    obtain ⟨hnodup, -, hnew⟩ := h
    have hentries := ih hnodup
    have hkey : last.key ∉ (fold foldClaim .empty records).keys := by
      rw [Dict.keys, hentries, List.map_map]
      intro hmem
      exact hnew _ hmem _ (by simp) rfl
    rw [fold_append, List.foldl_cons, List.foldl_nil, foldClaim,
      Dict.entries_insert_of_notMem hkey, hentries, List.map_append]
    rfl

section Load

variable [Documents N] [NumText N]

/-- What the maps of a gateway know of the records read so far. -/
structure Maps (records : List (ClaimRecord N))
    (maps : Dict String String × Dict String String) : Prop where
  byRemark : ∀ remark clientId, maps.1.get? remark = some clientId ↔
    Claimed records remark clientId ∧ clientId ≠ ""
  byClient : ∀ clientId remark, maps.2.get? clientId = some remark →
    Claimed records remark clientId

variable {record : ClaimRecord N} {remark clientId : String}

omit [NumText N] in
theorem textOr_identity (h : IdentityRecord record remark clientId) :
    Json.textOr (record.payload.get? "clientOrderId") = clientId := by
  rw [h.2, Json.textOr_str]

variable {records : List (ClaimRecord N)}

omit [Documents N] [NumText N] in
theorem claimed_concat_iff (hrecord : IdentityRecord record remark clientId)
    (remark' clientId' : String) :
    Claimed (records ++ [record]) remark' clientId' ↔
      Claimed records remark' clientId' ∨ (remark' = remark ∧ clientId' = clientId) := by
  constructor
  · intro hclaimed
    obtain ⟨record', hmem, hkey, hpayload⟩ := hclaimed
    rcases List.mem_append.mp hmem with hmem | hmem
    · exact .inl ⟨record', hmem, hkey, hpayload⟩
    · rw [List.mem_singleton.mp hmem] at hkey hpayload
      refine .inr ⟨remarkKey_injective (hkey.symm.trans hrecord.1), ?_⟩
      rw [hrecord.2] at hpayload
      injection hpayload with hclient
      injection hclient with hclient
      exact hclient.symm
  · intro hclaimed
    rcases hclaimed with hclaimed | ⟨rfl, rfl⟩
    · exact hclaimed.append _
    · exact ⟨record, by simp, hrecord⟩

section

omit [NumText N]

theorem loadIdentity_concat (hrecord : IdentityRecord record remark clientId)
    (hnew : record.key ∉ records.map ClaimRecord.key)
    {maps : Dict String String × Dict String String} (hmaps : Maps records maps) :
    ∃ maps', (loadIdentity maps record : Except (GatewayError N) _) = .ok maps' ∧
      Maps (records ++ [record]) maps' := by
  have hfree : ∀ other, ¬ Claimed records remark other := by
    intro other hclaimed
    obtain ⟨record', hmem, hkey, -⟩ := hclaimed
    exact hnew (List.mem_map.mpr ⟨record', hmem, hkey.trans hrecord.1.symm⟩)
  have hremark : remarkOfKey record.key = some remark := by
    rw [hrecord.1, remarkOfKey_remarkKey]
  rw [loadIdentity, hremark]
  simp only [textOr_identity hrecord]
  by_cases hempty : clientId = ""
  · rw [if_pos hempty]
    refine ⟨maps, rfl, ?_, ?_⟩
    · intro remark' clientId'
      rw [hmaps.byRemark, claimed_concat_iff hrecord, or_and_right]
      refine (or_iff_left ?_).symm
      intro hclient
      exact hclient.2 (hclient.1.2.trans hempty)
    · intro clientId' remark' hget
      exact (hmaps.byClient clientId' remark' hget).append _
  · have hnone : maps.1.get? remark = none := by
      cases hget : maps.1.get? remark with
      | none => rfl
      | some other => exact absurd ((hmaps.byRemark remark other).mp hget).1 (hfree other)
    simp only [if_neg hempty, hnone]
    refine ⟨_, rfl, ?_, ?_⟩
    · intro remark' clientId'
      rw [claimed_concat_iff hrecord, Dict.get?_insert]
      by_cases hsame : remark' = remark
      · rw [if_pos hsame, Option.some.injEq]
        constructor
        · intro hclient
          exact ⟨.inr ⟨hsame, hclient.symm⟩, fun hnil ↦ hempty (hclient.trans hnil)⟩
        · intro hclaimed
          rcases hclaimed.1 with hold | hclient
          · exact absurd (hsame ▸ hold) (hfree clientId')
          · exact hclient.2.symm
      · rw [if_neg hsame, hmaps.byRemark]
        refine and_congr_left fun _ ↦ ?_
        exact (or_iff_left fun hclient ↦ hsame hclient.1).symm
    · intro clientId' remark' hget
      rw [Dict.get?_insert] at hget
      rw [claimed_concat_iff hrecord]
      split at hget
      · rename_i hclient
        exact .inr ⟨(Option.some.inj hget).symm, hclient⟩
      · exact .inl (hmaps.byClient clientId' remark' hget)

theorem loadIdentity_records (h : IdentityLog records) :
    ∃ maps, (records.foldlM loadIdentity (.empty, .empty) : Except (GatewayError N) _) = .ok maps ∧
      Maps records maps := by
  induction records using List.reverseRecOn with
  | nil =>
    refine ⟨_, rfl, ?_, ?_⟩
    · intro remark clientId
      simp [Claimed]
    · intro clientId remark hget
      simp at hget
  | append_singleton records last ih =>
    obtain ⟨hsound, hidentity, hdistinct⟩ := h
    rw [List.map_append, List.nodup_append] at hdistinct
    obtain ⟨hnodup, -, hnew⟩ := hdistinct
    have hearlier : IdentityLog records := {
      sound := fun record hmem ↦ hsound record (List.mem_append_left _ hmem)
      identity := fun record hmem ↦ hidentity record (List.mem_append_left _ hmem)
      distinct := hnodup }
    obtain ⟨maps, hmaps, hknown⟩ := ih hearlier
    obtain ⟨remark, clientId, hlast⟩ := hidentity last (by simp)
    have hfresh : last.key ∉ records.map ClaimRecord.key := fun hmem ↦ hnew _ hmem _ (by simp) rfl
    obtain ⟨maps', hmaps', hknown'⟩ := loadIdentity_concat hlast hfresh hknown
    refine ⟨maps', ?_, hknown'⟩
    rw [List.foldlM_append, hmaps]
    change ([last].foldlM loadIdentity maps : Except (GatewayError N) _) = _
    rw [List.foldlM_cons, hmaps']
    rfl

end

variable {file : Option (List Char)}

/-- A gateway opens on an identity file, and its maps know what the file claims. -/
theorem create_identity (hfile : IdempotencyStore.Written file records) (h : IdentityLog records)
    {config : QMTConfig}
    (hconfig : (validateRemarkPrefix config : Except (GatewayError N) Unit) = .ok ()) :
    ∃ maps, Maps records maps ∧
      (create config file : Except (GatewayError N) (QMTGateway V N)) = .ok {
        config
        xtConst := none
        orders := .empty
        brokerToClient := .empty
        remarkToClient := maps.1
        clientToRemark := maps.2
        unresolvedOwnedRemarks := []
        identityStore := IdempotencyStore.upToDate records
        connected := false
        preflightOk := false } := by
  have hcreate : IdempotencyStore.create file = .ok (IdempotencyStore.upToDate records) := by
    rw [IdempotencyStore.create, IdempotencyStore.load_written hfile h.sound
      (IdempotencyStore.reads_fresh records)]
  have hvalues : (IdempotencyStore.upToDate records).claims.values = records := by
    rw [IdempotencyStore.upToDate, Dict.values, fold_foldClaim_entries h.distinct, List.map_map]
    exact List.map_id records
  obtain ⟨maps, hload, hmaps⟩ := loadIdentity_records h
  refine ⟨maps, hmaps, ?_⟩
  rw [create, hconfig, hcreate]
  change (loadIdentityMap _ >>= _) = _
  rw [loadIdentityMap, hvalues, hload]
  rfl

/-! ## Claiming an identity -/

/-- The file holds these records, the store of a gateway reads them, and what the gateway remembers
of its client orders is among them. -/
structure Keeps (records : List (ClaimRecord N)) (file : Option (List Char))
    (g : QMTGateway V N) : Prop where
  written : IdempotencyStore.Written file records
  log : IdentityLog records
  reads : IdempotencyStore.Reads records g.identityStore
  known : ∀ clientId remark, g.clientToRemark.get? clientId = some remark →
    Claimed records remark clientId

def identityRecord (remark clientId : String) (now : ClaimTime) : ClaimRecord N :=
  ClaimSystem.claimRecord (remarkKey remark) none (some (identityPayload clientId)) now

section

omit [Documents N] [NumText N]

section

variable (remark clientId : String) (now : ClaimTime)

theorem identityRecord_identity :
    IdentityRecord (identityRecord remark clientId now : ClaimRecord N) remark clientId :=
  ⟨rfl, Dict.get?_insert_self _ _ _⟩

theorem identityRecord_plain :
    (identityRecord remark clientId now : ClaimRecord N).toDict.Plain := by
  refine (ClaimSystem.claimRecord_plain_iff _ _ _ _).mpr ?_
  exact ⟨trivial, trivial⟩

theorem identityRecord_sound :
    (identityRecord remark clientId now : ClaimRecord N).Sound where
  plain := identityRecord_plain remark clientId now
  distinct := ClaimSystem.claimRecord_distinct _ _ _ _
  key_ne := remarkKey_ne remark
  claimedAt_ne := now.printed

end

theorem IdentityLog.append (h : IdentityLog records)
    (hnew : remarkKey remark ∉ records.map ClaimRecord.key) (clientId : String) (now : ClaimTime) :
    IdentityLog (records ++ [identityRecord remark clientId now]) where
  sound record hmem := by
    rcases List.mem_append.mp hmem with hmem | hmem
    · exact h.sound record hmem
    · rw [List.mem_singleton.mp hmem]
      exact identityRecord_sound remark clientId now
  identity record hmem := by
    rcases List.mem_append.mp hmem with hmem | hmem
    · exact h.identity record hmem
    · rw [List.mem_singleton.mp hmem]
      exact ⟨remark, clientId, identityRecord_identity remark clientId now⟩
  distinct := by
    rw [List.map_append]
    exact List.Nodup.append h.distinct (List.nodup_singleton _) (List.disjoint_singleton.mpr hnew)

end

variable {g : QMTGateway V N}

section

omit [Documents N]

/-- What a gateway keeps while another one appends. -/
theorem Keeps.append {more : List (ClaimRecord N)} {file' : Option (List Char)}
    (h : Keeps records file g) (hwritten : IdempotencyStore.Written file' (records ++ more))
    (hlog : IdentityLog (records ++ more)) : Keeps (records ++ more) file' g where
  written := hwritten
  log := hlog
  reads := by
    clear hwritten hlog
    induction more using List.reverseRecOn with
    | nil => rw [List.append_nil]; exact h.reads
    | append_singleton more last ih =>
      rw [← List.append_assoc]
      exact ih.append last
  known clientId remark hget := (h.known clientId remark hget).append more

theorem Keeps.remember (h : Keeps records file g) {store : IdempotencyStore N}
    (hreads : IdempotencyStore.Reads records store) {clientOrderId : String}
    (hclaimed : Claimed records remark clientOrderId) :
    Keeps records file { g with
      identityStore := store
      remarkToClient := g.remarkToClient.insert remark clientOrderId
      clientToRemark := g.clientToRemark.insert clientOrderId remark } where
  written := h.written
  log := h.log
  reads := hreads
  known clientId remark' hget := by
    simp only [Dict.get?_insert] at hget
    split at hget
    · rename_i hclient
      rw [hclient, ← Option.some.inj hget]
      exact hclaimed
    · exact h.known clientId remark' hget

end

theorem Keeps.claim_known (h : Keeps records file g) {existing : ClaimRecord N}
    (hexisting : (IdempotencyStore.upToDate records).claims.get? (remarkKey remark) = some existing)
    (clientOrderId : String) (now : ClaimTime) :
    g.identityStore.claim file (remarkKey remark) none (some (identityPayload clientOrderId)) false
      now = (IdempotencyStore.upToDate records, file, .ok ⟨false, existing⟩) := by
  rw [IdempotencyStore.claim, IdempotencyStore.load_written h.written h.log.sound h.reads]
  simp only [hexisting]
  rfl

theorem Keeps.claim_new (h : Keeps records file g)
    (hnone : (IdempotencyStore.upToDate records).claims.get? (remarkKey remark) = none)
    (clientOrderId : String) (now : ClaimTime) :
    g.identityStore.claim file (remarkKey remark) none (some (identityPayload clientOrderId)) false
      now =
      ({ IdempotencyStore.upToDate records with
          claims := foldClaim (IdempotencyStore.upToDate records).claims
            (identityRecord remark clientOrderId now) },
        some (file.getD [] ++
          IdempotencyStore.lineOf (identityRecord (N := N) remark clientOrderId now)),
        .ok ⟨true, identityRecord remark clientOrderId now⟩) := by
  have hput := ClaimSystem.put_plain (identityRecord_plain (N := N) remark clientOrderId now)
    (IdempotencyStore.upToDate records) file
  rw [identityRecord, ClaimSystem.claimRecord] at hput
  rw [IdempotencyStore.claim, IdempotencyStore.load_written h.written h.log.sound h.reads]
  simp only [hnone]
  rw [hput]
  rfl

/-- An identity that is claimed is in the file before anything else happens. -/
theorem Keeps.registerClientIdentity [Sha1] (h : Keeps records file g) (clientOrderId : String)
    (now : ClaimTime) :
    ∃ more, Keeps (records ++ more) (g.registerClientIdentity file clientOrderId now).2.1
        (g.registerClientIdentity file clientOrderId now).1 ∧
      ∀ remark, (g.registerClientIdentity file clientOrderId now).2.2 = .ok remark →
        Claimed (records ++ more) remark clientOrderId := by
  unfold QMTGateway.registerClientIdentity
  cases hknown : g.clientToRemark.get? clientOrderId with
  | some existing =>
    refine ⟨[], by rw [List.append_nil]; exact h, ?_⟩
    intro remark hremark
    rw [List.append_nil, ← Except.ok.inj hremark]
    exact h.known clientOrderId existing hknown
  | none =>
    cases htoken : (remarkToken g.config clientOrderId : Except (GatewayError N) String) with
    | error error => exact ⟨[], by rw [List.append_nil]; exact h, (fun _ h ↦ by cases h)⟩
    | ok remark =>
      cases hexisting : (IdempotencyStore.upToDate records).claims.get? (remarkKey remark) with
      | some existing =>
        obtain ⟨hmem, hkey⟩ := ClaimSystem.mem_of_get?_fold hexisting
        obtain ⟨remark', storedClient, hidentity⟩ := h.log.identity existing hmem
        have hremark := remarkKey_injective (hidentity.1.symm.trans hkey)
        rw [hremark] at hidentity
        have hreads := IdempotencyStore.reads_upToDate records
        simp only [h.claim_known hexisting, textOr_identity hidentity]
        by_cases hclient : storedClient = clientOrderId
        · rw [if_neg (not_not.mpr hclient)]
          rw [hclient] at hidentity
          have hclaimed : Claimed records remark clientOrderId := ⟨existing, hmem, hidentity⟩
          refine ⟨[], ?_, ?_⟩
          · rw [List.append_nil]
            exact h.remember hreads hclaimed
          · intro other hother
            rw [List.append_nil, ← Except.ok.inj hother]
            exact hclaimed
        · rw [if_pos hclient]
          refine ⟨[], ?_, (fun _ h ↦ by cases h)⟩
          rw [List.append_nil]
          exact ⟨h.written, h.log, hreads, h.known⟩
      | none =>
        have hnew : remarkKey remark ∉ records.map ClaimRecord.key := by
          intro hmem
          refine Dict.get?_eq_none_iff.mp hexisting ?_
          rw [IdempotencyStore.upToDate, Dict.keys, fold_foldClaim_entries h.log.distinct,
            List.map_map]
          exact hmem
        have hrecord := identityRecord_identity (N := N) remark clientOrderId now
        have hwritten := IdempotencyStore.written_append h.written
          (identityRecord remark clientOrderId now)
        have hlog := h.log.append hnew clientOrderId now
        have hclaimed : Claimed (records ++ [identityRecord remark clientOrderId now]) remark
            clientOrderId := ⟨_, by simp, hrecord⟩
        simp only [h.claim_new hexisting, textOr_identity hrecord]
        rw [if_neg (not_not.mpr rfl)]
        refine ⟨[identityRecord remark clientOrderId now], ?_, ?_⟩
        · exact (h.append hwritten hlog).remember (IdempotencyStore.reads_put _ _) hclaimed
        · intro other hother
          rw [← Except.ok.inj hother]
          exact hclaimed

end Load

end QMTGateway

/-! ## Processes on one identity file -/

structure Process (V N : Type) where
  gateway : QMTGateway V N
  calls : List (Call V N)

/-- The processes that run, the identity file they share and what they sent to the broker. -/
structure Fleet (V N : Type) where
  processes : List (Process V N)
  file : Option (List Char)
  sent : List (Sent V N)

inductive FleetStep (V N : Type) where
  /-- A process starts and constructs a gateway. -/
  | start (config : QMTConfig)
  /-- A process goes one step further. -/
  | act (process : ℕ) (action : Action V N)
  /-- A process is gone, with everything it remembered. -/
  | crash (process : ℕ)

namespace Fleet

def initial : Fleet V N := ⟨[], none, []⟩

def host (f : Fleet V N) (process : Process V N) : Host V N :=
  ⟨process.gateway, process.calls, f.file, f.sent⟩

def back (f : Fleet V N) (i : ℕ) (h : Host V N) : Fleet V N where
  processes := f.processes.set i ⟨h.gateway, h.calls⟩
  file := h.file
  sent := h.sent

section Step

variable [Documents N] [NumText N] [BrokerValue V N] [PyText] [Sha1]

/-- One step of the processes, all of which use one remark prefix and write to the file through
their gateways only. -/
def step (remarkPrefix : String) (f : Fleet V N) : FleetStep V N → Fleet V N
  | .start config =>
    match QMTGateway.create { config with orderRemarkPrefix := remarkPrefix } f.file with
    | .ok gateway => { f with processes := f.processes ++ [⟨gateway, []⟩] }
    | .error (_ : GatewayError N) => f
  | .act _ (.elsewhere _) => f
  | .act i action =>
    match f.processes[i]? with
    | none => f
    | some process => f.back i ((f.host process).step action)
  | .crash i => { f with processes := f.processes.eraseIdx i }

/-! ## What a later gateway makes of the rows -/

omit [Documents N] [NumText N] [PyText] [Sha1] in
/-- The client order a row is recorded for; `none` when it counts as unresolved. -/
def resolved (g : QMTGateway V N) (row : OrderRow V) : Option String :=
  let clientId := (g.clientIdForSnapshot row (textAttr row.orderId)).getD ""
  if clientId = "" then none else some clientId

/-- A gateway after rows that arrived one after another. -/
def ingested (g : QMTGateway V N) (rows : List (OrderRow V)) : QMTGateway V N :=
  rows.foldl (fun g row ↦ (g.ingestOrderSnapshot row "query").1) g

def Identified (rows : List (OrderRow V)) : Prop :=
  ∀ row ∈ rows, ∀ row' ∈ rows, textAttr row.orderId ≠ "" →
    textAttr row.orderId = textAttr row'.orderId →
    textAttr row.orderRemark = textAttr row'.orderRemark

/-- A live gateway on the file, as it is constructed now. -/
def Opens (remarkPrefix : String) (file : Option (List Char)) (g : QMTGateway V N) : Prop :=
  ∃ config : QMTConfig, config.orderRemarkPrefix = remarkPrefix ∧ config.dryRun = false ∧
    (QMTGateway.create config file : Except (GatewayError N) _) = .ok g

/-- What the identity file promises: a gateway can be constructed on it; every such gateway resolves
the row of an order that was sent to the client order it was sent for; and its preflight, whatever
connection it has, is only passed when no row with the prefix is left unresolved. -/
structure DurableIdentity (remarkPrefix : String) (f : Fleet V N) : Prop where
  opens : ∀ config : QMTConfig, config.orderRemarkPrefix = remarkPrefix →
    (QMTGateway.validateRemarkPrefix config : Except (GatewayError N) Unit) = .ok () →
    ∃ g : QMTGateway V N, (QMTGateway.create config f.file : Except (GatewayError N) _) = .ok g
  resolves : ∀ g : QMTGateway V N, Opens remarkPrefix f.file g →
    ∀ constants rows, Identified rows → ∀ earlier row later, rows = earlier ++ row :: later →
      ∀ order ∈ f.sent, textAttr row.orderRemark = order.request.remark →
        resolved (ingested (g.bindLiveClient constants) earlier) row = some order.clientOrderId
  preflight : ∀ g : QMTGateway V N, Opens remarkPrefix f.file g →
    ∀ constants answers rows g', answers.orders = .ok rows →
      (g.bindLiveClient constants).preflight answers = .ok (g', []) →
      ∀ row ∈ rows, QMTGateway.isOwnedRemark g.config (textAttr row.orderRemark) →
        (resolved g' row).isSome

/-! ## Rows do not touch the identity map -/

omit [Documents N] [NumText N] [BrokerValue V N] [PyText] [Sha1] in
/-- Two gateways with one identity map and one store. -/
structure SameIdentity (g g' : QMTGateway V N) : Prop where
  config : g'.config = g.config
  store : g'.identityStore = g.identityStore
  byRemark : g'.remarkToClient = g.remarkToClient
  byClient : g'.clientToRemark = g.clientToRemark

omit [Documents N] [NumText N] [BrokerValue V N] [PyText] [Sha1] in
theorem SameIdentity.refl (g : QMTGateway V N) : SameIdentity g g := ⟨rfl, rfl, rfl, rfl⟩

variable {g g' : QMTGateway V N}

omit [Documents N] [NumText N] [BrokerValue V N] [PyText] [Sha1] in
theorem SameIdentity.trans {g'' : QMTGateway V N} (h : SameIdentity g g')
    (h' : SameIdentity g' g'') : SameIdentity g g'' :=
  ⟨h'.config.trans h.config, h'.store.trans h.store, h'.byRemark.trans h.byRemark,
    h'.byClient.trans h.byClient⟩

section

omit [Documents N] [NumText N] [PyText] [Sha1]

theorem sameIdentity_ingest (g : QMTGateway V N) (row : OrderRow V) (source : String) :
    SameIdentity g (g.ingestOrderSnapshot row source).1 := by
  have hnoted (brokerId clientId : String) : SameIdentity g (g.noteBrokerId brokerId clientId) := by
    unfold QMTGateway.noteBrokerId
    split
    · exact .refl g
    · exact ⟨rfl, rfl, rfl, rfl⟩
  unfold QMTGateway.ingestOrderSnapshot
  simp only
  split
  · unfold QMTGateway.noteUnresolved
    simp only
    split
    · exact ⟨rfl, rfl, rfl, rfl⟩
    · exact .refl g
  · split
    · exact hnoted _ _
    · exact (hnoted _ _).trans ⟨rfl, rfl, rfl, rfl⟩

theorem sameIdentity_submitReturned (g : QMTGateway V N) (order : Order N) (answer : Option V) :
    SameIdentity g (g.submitReturned order answer).1 := by
  unfold QMTGateway.submitReturned
  split
  · exact ⟨rfl, rfl, rfl, rfl⟩
  · split
    · simp only
      split
      · exact ⟨rfl, rfl, rfl, rfl⟩
      · exact ⟨rfl, rfl, rfl, rfl⟩
    · exact .refl g

end

/-! ## What rows are resolved to -/

omit [Documents N] [NumText N] [PyText] [Sha1] in
theorem brokerToClient_ingest (g : QMTGateway V N) (row : OrderRow V) (source brokerId : String) :
    (g.ingestOrderSnapshot row source).1.brokerToClient.get? brokerId =
      if brokerId = textAttr row.orderId ∧ brokerId ≠ "" ∧ (resolved g row).isSome then
        resolved g row
      else g.brokerToClient.get? brokerId := by
  unfold QMTGateway.ingestOrderSnapshot resolved
  simp only
  generalize (g.clientIdForSnapshot row (textAttr row.orderId)).getD "" = clientId
  by_cases hclient : clientId = ""
  · simp only [if_pos hclient, Option.isSome_none, Bool.false_eq_true, and_false, if_false]
    unfold QMTGateway.noteUnresolved
    simp only
    split
    · rfl
    · rfl
  · have hnoted : (g.noteBrokerId (textAttr row.orderId) clientId).brokerToClient.get? brokerId =
        if brokerId = textAttr row.orderId ∧ brokerId ≠ "" then some clientId
        else g.brokerToClient.get? brokerId := by
      unfold QMTGateway.noteBrokerId
      by_cases hid : textAttr row.orderId = ""
      · rw [if_pos hid, if_neg]
        intro hboth
        exact hboth.2 (hboth.1.trans hid)
      · simp only [if_neg hid, Dict.get?_insert]
        refine if_congr ?_ rfl rfl
        exact ⟨fun heq ↦ ⟨heq, fun hnil ↦ hid (heq.symm.trans hnil)⟩, And.left⟩
    simp only [if_neg hclient, Option.isSome_some, and_true]
    split
    · exact hnoted
    · exact hnoted

omit [Documents N] [NumText N] [PyText] [Sha1] in
/-- Every broker identifier leads to the client order that the map has for a remark it came with. -/
structure Attributed (rows : List (OrderRow V)) (g g' : QMTGateway V N) : Prop where
  same : SameIdentity g g'
  byId : ∀ brokerId clientId, g'.brokerToClient.get? brokerId = some clientId →
    ∃ row ∈ rows, textAttr row.orderId = brokerId ∧ brokerId ≠ "" ∧
      g.remarkToClient.get? (textAttr row.orderRemark) = some clientId

variable {rows : List (OrderRow V)} {row : OrderRow V}

section

omit [Documents N] [NumText N] [PyText] [Sha1]

section

variable (h : Attributed rows g g') (hrows : Identified rows)
  (hnamed : ∀ remark, g.remarkToClient.get? remark ≠ some "")
include h hrows hnamed

theorem Attributed.resolved_eq (hrow : row ∈ rows) :
    resolved g' row = g.remarkToClient.get? (textAttr row.orderRemark) := by
  have hclient : g'.clientIdForSnapshot row (textAttr row.orderId) =
      g.remarkToClient.get? (textAttr row.orderRemark) := by
    rw [QMTGateway.clientIdForSnapshot, h.same.byRemark]
    by_cases hid : textAttr row.orderId = ""
    · rw [if_pos hid, Option.none_or]
    · rw [if_neg hid]
      cases hget : g'.brokerToClient.get? (textAttr row.orderId) with
      | none => rw [Option.none_or]
      | some clientId =>
        obtain ⟨row', hrow', hid', -, hremark⟩ := h.byId _ _ hget
        have hsame := hrows row hrow row' hrow' hid hid'.symm
        rw [hsame, hremark, Option.some_or]
  rw [resolved, hclient]
  cases hget : g.remarkToClient.get? (textAttr row.orderRemark) with
  | none => rfl
  | some clientId =>
    have hne : clientId ≠ "" := fun hnil ↦ hnamed _ (hnil ▸ hget)
    exact if_neg hne

theorem Attributed.ingest (hrow : row ∈ rows) (source : String) :
    Attributed rows g (g'.ingestOrderSnapshot row source).1 where
  same := h.same.trans (sameIdentity_ingest g' row source)
  byId brokerId clientId hget := by
    rw [brokerToClient_ingest] at hget
    split at hget
    · rename_i hboth
      rw [h.resolved_eq hrows hnamed hrow] at hget
      exact ⟨row, hrow, hboth.1.symm, hboth.2.1, hget⟩
    · exact h.byId brokerId clientId hget

theorem Attributed.ingested {earlier : List (OrderRow V)} (hearlier : ∀ row ∈ earlier, row ∈ rows) :
    Attributed rows g (ingested g' earlier) := by
  induction earlier generalizing g' with
  | nil => exact h
  | cons row earlier ih =>
    obtain ⟨hrow, hrest⟩ := List.forall_mem_cons.mp hearlier
    exact ih (h.ingest hrows hnamed hrow "query") hrest

end

end

/-! ## Preflight -/

section

omit [Documents N] [NumText N] [PyText] [Sha1]

theorem unresolved_ingest (g : QMTGateway V N) (row : OrderRow V) (source : String) :
    (∀ remark ∈ g.unresolvedOwnedRemarks,
        remark ∈ (g.ingestOrderSnapshot row source).1.unresolvedOwnedRemarks) ∧
      (QMTGateway.isOwnedRemark g.config (textAttr row.orderRemark) → resolved g row = none →
        textAttr row.orderRemark ∈
          (g.ingestOrderSnapshot row source).1.unresolvedOwnedRemarks) := by
  have hnoted (brokerId clientId : String) :
      (g.noteBrokerId brokerId clientId).unresolvedOwnedRemarks = g.unresolvedOwnedRemarks := by
    unfold QMTGateway.noteBrokerId
    split
    · rfl
    · rfl
  unfold QMTGateway.ingestOrderSnapshot resolved
  simp only
  generalize (g.clientIdForSnapshot row (textAttr row.orderId)).getD "" = clientId
  by_cases hclient : clientId = ""
  · simp only [if_pos hclient]
    unfold QMTGateway.noteUnresolved
    simp only
    split
    · exact ⟨fun remark hmem ↦ List.mem_insert_of_mem hmem, fun _ _ ↦ List.mem_insert_self⟩
    · rename_i howned
      exact ⟨fun remark hmem ↦ hmem, fun hmine ↦ absurd hmine howned⟩
  · simp only [if_neg hclient]
    refine ⟨?_, nofun⟩
    intro remark hmem
    split
    · simp only [hnoted]
      exact hmem
    · simp only [QMTGateway.record, hnoted]
      exact hmem

theorem resolved_ne {clientId : String} (h : resolved g row = some clientId) : clientId ≠ "" := by
  rw [resolved] at h
  split at h
  · cases h
  · rename_i hne
    rw [← Option.some.inj h]
    exact hne

/-- A row that was resolved when it arrived, or any other row, stays resolved. -/
theorem resolved_ingest (h : (resolved g row).isSome) (other : OrderRow V) (source : String) :
    (resolved (g.ingestOrderSnapshot other source).1 row).isSome := by
  have hremark := (sameIdentity_ingest g other source).byRemark
  have hbroker := brokerToClient_ingest g other source (textAttr row.orderId)
  rw [resolved, QMTGateway.clientIdForSnapshot, hremark, hbroker]
  by_cases hid : textAttr row.orderId = ""
  · rw [resolved, QMTGateway.clientIdForSnapshot] at h
    rw [if_pos hid] at h ⊢
    exact h
  · rw [if_neg hid]
    split
    · rename_i hboth
      obtain ⟨clientId, hclient⟩ := Option.isSome_iff_exists.mp hboth.2.2
      have hne := resolved_ne hclient
      rw [hclient, Option.some_or, Option.getD_some, if_neg hne]
      rfl
    · rw [resolved, QMTGateway.clientIdForSnapshot, if_neg hid] at h
      exact h

/-- After a query without errors, a row with the prefix is resolved or noted. -/
theorem noted_ingestAll (h : g.ingestAll rows = (g', .ok ())) :
    g'.config = g.config ∧
      (∀ remark ∈ g.unresolvedOwnedRemarks, remark ∈ g'.unresolvedOwnedRemarks) ∧
      (∀ row, (resolved g row).isSome → (resolved g' row).isSome) ∧
      ∀ row ∈ rows, QMTGateway.isOwnedRemark g.config (textAttr row.orderRemark) →
        (resolved g' row).isSome ∨ textAttr row.orderRemark ∈ g'.unresolvedOwnedRemarks := by
  induction rows generalizing g with
  | nil =>
    cases h
    exact ⟨rfl, fun _ hmem ↦ hmem, fun _ hrow ↦ hrow, by simp⟩
  | cons row rows ih =>
    have hconfig := (sameIdentity_ingest g row "query").config
    obtain ⟨hkept, hmine⟩ := unresolved_ingest g row "query"
    have hresolved (other : OrderRow V) (hother : (resolved g other).isSome) :=
      resolved_ingest hother row "query"
    have hself := hresolved row
    rw [QMTGateway.ingestAll] at h
    split at h
    · cases (Prod.mk.inj h).2
    · rename_i next _ hnext
      rw [hnext] at hconfig hkept hmine hresolved hself
      obtain ⟨hconfig', hkept', hresolved', hrows⟩ := ih h
      refine ⟨hconfig'.trans hconfig, ?_, ?_, ?_⟩
      · exact fun remark hmem ↦ hkept' remark (hkept remark hmem)
      · exact fun other hother ↦ hresolved' other (hresolved other hother)
      · intro other hother howned
        rcases List.mem_cons.mp hother with heq | hother
        · rw [heq] at howned ⊢
          cases hnone : resolved g row with
          | none => exact .inr (hkept' _ (hmine howned hnone))
          | some clientId =>
            exact .inl (hresolved' row (hself (Option.isSome_of_eq_some hnone)))
        · exact hrows other hother (hconfig ▸ howned)

/-- A live preflight that is passed leaves no row with the prefix unresolved. -/
theorem resolved_of_preflight {answers : QMTGateway.Answers V} (hlive : g.config.dryRun = false)
    (hrows : answers.orders = .ok rows) (h : g.preflight answers = .ok (g', [])) :
    ∀ row ∈ rows, QMTGateway.isOwnedRemark g.config (textAttr row.orderRemark) →
      (resolved g' row).isSome := by
  intro row hrow howned
  rw [QMTGateway.preflight, hlive, hrows] at h
  simp only [Bool.false_eq_true, if_false] at h
  cases hconnected : g.ensureConnected false with
  | error error =>
    rw [hconnected] at h
    cases h
  | ok constants =>
    rw [hconnected] at h
    replace h := Except.ok.inj h
    cases hall : g.startPreflight.ingestAll rows with
    | mk synced result =>
      rw [hall] at h
      cases result with
      | error error =>
        have herrors := (Prod.mk.inj h).2
        simp at herrors
      | ok _ =>
        obtain ⟨hgateway, herrors⟩ := Prod.mk.inj h
        obtain ⟨-, -, -, hnoted⟩ := noted_ingestAll hall
        have hnone : synced.unresolvedOwnedRemarks = [] := by
          have hlength := congrArg List.length (List.append_eq_nil_iff.mp herrors).2
          rw [List.length_map, List.length_mergeSort, List.length_nil] at hlength
          exact List.eq_nil_of_length_eq_zero hlength
        rw [← hgateway]
        rcases hnoted row hrow howned with hresolved | hunresolved
        · exact hresolved
        · rw [hnone] at hunresolved
          cases hunresolved

end


/-! ## Steps of one process -/

omit [Documents N] [BrokerValue V N] [PyText] [Sha1] in
structure Tended (records : List (ClaimRecord N)) (h : Host V N) : Prop where
  keeps : QMTGateway.Keeps records h.file h.gateway
  calls : ∀ order request, .sending order request ∈ h.calls →
    QMTGateway.Claimed records request.remark order.clientOrderId
  sent : ∀ order ∈ h.sent, QMTGateway.Claimed records order.request.remark order.clientOrderId

variable {records : List (ClaimRecord N)} {h : Host V N}

section

omit [Documents N] [BrokerValue V N] [PyText] [Sha1]

/-- A step that neither claims nor sends. -/
theorem Tended.quiet {h' : Host V N} (htended : Tended records h)
    (hidentity : SameIdentity h.gateway h'.gateway) (hfile : h'.file = h.file)
    (hsent : h'.sent = h.sent)
    (hcalls : ∀ order request, .sending order request ∈ h'.calls → .sending order request ∈
      h.calls) : Tended records h' where
  keeps := {
    written := hfile ▸ htended.keeps.written
    log := htended.keeps.log
    reads := hidentity.store ▸ htended.keeps.reads
    known := hidentity.byClient ▸ htended.keeps.known }
  calls order request hmem := htended.calls order request (hcalls order request hmem)
  sent := hsent ▸ htended.sent

theorem Tended.finish (htended : Tended records h) (i : ℕ) {gateway : QMTGateway V N}
    (hidentity : SameIdentity h.gateway gateway) :
    Tended records (h.finish i gateway) :=
  htended.quiet hidentity rfl rfl fun _ _ hmem ↦ List.mem_of_mem_eraseIdx hmem

theorem Tended.begin (htended : Tended records h) {call : Call V N}
    (hcall : ∀ order request, call = .sending order request → QMTGateway.Claimed records
      request.remark order.clientOrderId) :
    Tended records (h.begin call) where
  keeps := htended.keeps
  calls order request hmem := by
    rcases List.mem_append.mp hmem with hmem | hmem
    · exact htended.calls order request hmem
    · exact hcall order request (List.mem_singleton.mp hmem).symm
  sent := htended.sent

end

variable {file : Option (List Char)}

section

variable (htended : Tended records h)
include htended

omit [Documents N] [BrokerValue V N] [PyText] [Sha1] in
theorem Tended.append {more : List (ClaimRecord N)} {sent : List (Sent V N)}
    (hwritten : IdempotencyStore.Written file (records ++ more))
    (hlog : QMTGateway.IdentityLog (records ++ more))
    (hsent : ∀ order ∈ sent, QMTGateway.Claimed (records ++ more) order.request.remark
      order.clientOrderId) :
    Tended (records ++ more) { h with file, sent } where
  keeps := htended.keeps.append hwritten hlog
  calls order request hmem := (htended.calls order request hmem).append more
  sent := hsent

/-- A submission claims its identity before it is ready to be sent. -/
theorem Tended.submit (order : Order N) (now : ClaimTime) :
    ∃ more, Tended (records ++ more) (h.submit order now) := by
  have hsame : Tended (records ++ []) h := by rwa [List.append_nil]
  unfold Host.submit
  split
  · exact ⟨[], hsame⟩
  · split
    · exact ⟨[], hsame.quiet ⟨rfl, rfl, rfl, rfl⟩ rfl rfl fun _ _ hmem ↦ hmem⟩
    · split
      · exact ⟨[], hsame⟩
      · obtain ⟨more, hkeeps, hclaimed⟩ :=
          htended.keeps.registerClientIdentity order.clientOrderId now
        refine ⟨more, ?_⟩
        have hcarried (file : Option (List Char)) (gateway : QMTGateway V N)
            (hnext : QMTGateway.Keeps (records ++ more) file gateway) :
            Tended (records ++ more) { h with gateway, file } := {
          keeps := hnext
          calls := fun order request hmem ↦ (htended.calls order request hmem).append more
          sent := fun order hmem ↦ (htended.sent order hmem).append more }
        split
        · rename_i heq
          rw [heq] at hkeeps
          exact hcarried _ _ hkeeps
        · rename_i remark heq
          rw [heq] at hkeeps hclaimed
          refine (hcarried _ _ hkeeps).begin ?_
          intro order' request hcall
          injection hcall with horder hrequest
          rw [← horder, ← hrequest]
          exact hclaimed remark rfl

omit [Documents N] [BrokerValue V N] [PyText] [Sha1] in
theorem Tended.requestCancel (clientOrderId : String) (current : OrderState N) :
    Tended records (h.requestCancel clientOrderId current) := by
  unfold Host.requestCancel
  split
  · exact htended
  · exact htended.begin fun _ _ h ↦ nomatch h

omit [Documents N] [PyText] [Sha1] in
theorem Tended.cancel (clientOrderId : String) :
    Tended records (h.cancel clientOrderId) := by
  unfold Host.cancel
  split
  · exact htended.quiet ⟨rfl, rfl, rfl, rfl⟩ rfl rfl fun _ _ hmem ↦ hmem
  · split
    · exact htended
    · split
      · exact htended.requestCancel _ _
      · exact htended.begin (fun _ _ h ↦ by cases h)

end

variable {action : Action V N}

/-- Whatever a process does, what it claimed and what it sent stays in the file. -/
theorem Tended.step (htended : Tended records h) (hown : ∀ file, action ≠ .elsewhere file) :
    ∃ more, Tended (records ++ more) (h.step action) := by
  have hsame {h' : Host V N} (hnext : Tended records h') : ∃ more, Tended (records ++ more) h' :=
    ⟨[], by rwa [List.append_nil]⟩
  cases action with
  | submit order now => exact htended.submit order now
  | orderStock i =>
    refine hsame ?_
    simp only [Host.step]
    split
    · rename_i order request hcall
      refine ⟨htended.keeps, ?_, ?_⟩
      · intro order' request' hmem
        rcases List.mem_or_eq_of_mem_set hmem with hmem | heq
        · exact htended.calls order' request' hmem
        · cases heq
      · refine List.forall_mem_append.mpr ⟨htended.sent, List.forall_mem_singleton.mpr ?_⟩
        exact htended.calls order request (List.mem_of_getElem? hcall)
    · exact htended
  | submitReturned i answer =>
    refine hsame ?_
    simp only [Host.step]
    split
    · exact htended.finish i (sameIdentity_submitReturned _ _ _)
    · exact htended
  | cancel clientOrderId => exact hsame (htended.cancel clientOrderId)
  | lookedUp i =>
    refine hsame ?_
    simp only [Host.step]
    split
    · unfold Host.lookedUp
      simp only
      split
      · exact (htended.finish i (.refl _)).requestCancel _ _
      · exact htended.finish i (.refl _)
    · exact htended
  | cancelReturned i failure =>
    refine hsame ?_
    simp only [Host.step]
    split
    · exact htended.finish i ⟨rfl, rfl, rfl, rfl⟩
    · exact htended
  | abandon i => exact hsame (htended.finish i (.refl _))
  | ingest row source =>
    exact hsame (htended.quiet (sameIdentity_ingest _ _ _) rfl rfl fun _ _ hmem ↦ hmem)
  | errorReported error =>
    refine hsame ?_
    simp only [Host.step, Host.errorReported]
    split
    · exact htended
    · exact htended.begin (fun _ _ h ↦ by cases h)
  | errorRecorded i =>
    refine hsame ?_
    simp only [Host.step]
    split
    · exact htended.finish i ⟨rfl, rfl, rfl, rfl⟩
    · exact htended
  | elsewhere file => exact absurd rfl (hown file)
  | startPreflight =>
    exact hsame (htended.quiet ⟨rfl, rfl, rfl, rfl⟩ rfl rfl fun _ _ hmem ↦ hmem)
  | endPreflight _ =>
    exact hsame (htended.quiet ⟨rfl, rfl, rfl, rfl⟩ rfl rfl fun _ _ hmem ↦ hmem)
  | bindLiveClient _ =>
    exact hsame (htended.quiet ⟨rfl, rfl, rfl, rfl⟩ rfl rfl fun _ _ hmem ↦ hmem)
  | disconnect => exact hsame (htended.quiet ⟨rfl, rfl, rfl, rfl⟩ rfl rfl fun _ _ hmem ↦ hmem)
  | onConnected => exact hsame (htended.quiet ⟨rfl, rfl, rfl, rfl⟩ rfl rfl fun _ _ hmem ↦ hmem)
  | onDisconnected => exact hsame (htended.quiet ⟨rfl, rfl, rfl, rfl⟩ rfl rfl fun _ _ hmem ↦ hmem)

/-- An order that reaches the broker was about to be sent. -/
theorem sent_step (h : Host V N) (action : Action V N) :
    (h.step action).sent = h.sent ∨
      ∃ i order request, action = .orderStock i ∧ h.calls[i]? = some (.sending order request) ∧
        (h.step action).sent = h.sent ++ [⟨order.clientOrderId, request⟩] := by
  have hrequest (h : Host V N) (clientOrderId : String) (current : OrderState N) :
      (h.requestCancel clientOrderId current).sent = h.sent := by
    unfold Host.requestCancel
    split
    · rfl
    · rfl
  cases action with
  | submit order now =>
    refine .inl ?_
    simp only [Host.step, Host.submit]
    split
    · rfl
    · split
      · rfl
      · split
        · rfl
        · split
          · rfl
          · rfl
  | orderStock i =>
    cases hcall : h.calls[i]? with
    | none => exact .inl (by simp only [Host.step, hcall])
    | some call =>
      cases call with
      | sending order request =>
        exact .inr ⟨i, order, request, rfl, hcall, by simp only [Host.step, hcall]⟩
      | _ => exact .inl (by simp only [Host.step, hcall])
  | submitReturned i answer =>
    refine .inl ?_
    simp only [Host.step]
    split
    · rfl
    · rfl
  | cancel clientOrderId =>
    refine .inl ?_
    simp only [Host.step, Host.cancel]
    split
    · rfl
    · split
      · rfl
      · split
        · exact hrequest _ _ _
        · rfl
  | lookedUp i =>
    refine .inl ?_
    simp only [Host.step, Host.lookedUp]
    split
    · split
      · exact hrequest _ _ _
      · rfl
    · rfl
  | cancelReturned i failure =>
    refine .inl ?_
    simp only [Host.step]
    split
    · rfl
    · rfl
  | errorReported error =>
    refine .inl ?_
    simp only [Host.step, Host.errorReported]
    split
    · rfl
    · rfl
  | errorRecorded i =>
    refine .inl ?_
    simp only [Host.step]
    split
    · rfl
    · rfl
  | _ => exact .inl rfl

/-! ## Runs -/

/-- What holds of every state: the file holds the identities, whoever runs. -/
structure Kept (remarkPrefix : String) (f : Fleet V N) (records : List (ClaimRecord N)) :
    Prop where
  written : IdempotencyStore.Written f.file records
  log : QMTGateway.IdentityLog records
  hosts : ∀ process ∈ f.processes, Tended records (f.host process)
  sent : ∀ order ∈ f.sent, QMTGateway.Claimed records order.request.remark order.clientOrderId
  fit : f.processes ≠ [] ∨ f.sent ≠ [] → ∀ config : QMTConfig,
    config.orderRemarkPrefix = remarkPrefix →
      (QMTGateway.validateRemarkPrefix config : Except (GatewayError N) Unit) = .ok ()

/-- No order without a client order identifier is sent. -/
def Named (f : Fleet V N) : FleetStep V N → Prop
  | .act i (.orderStock j) => ∀ process, f.processes[i]? = some process →
      ∀ order request, process.calls[j]? = some (.sending order request) →
        order.clientOrderId ≠ ""
  | _ => True

/-- The file is in order, and every order that was sent has an identifier. -/
def InOrder (remarkPrefix : String) (f : Fleet V N) : Prop :=
  (∃ records, Kept remarkPrefix f records) ∧ ∀ order ∈ f.sent, order.clientOrderId ≠ ""

omit [Documents N] [BrokerValue V N] [PyText] [Sha1] in
theorem kept_initial (remarkPrefix : String) : Kept remarkPrefix (initial : Fleet V N) [] where
  written := .inl ⟨rfl, rfl⟩
  log := ⟨by simp, by simp, by simp⟩
  hosts := by simp [initial]
  sent := by simp [initial]
  fit h := absurd h (by simp [initial])

variable {config : QMTConfig}

omit [Documents N] [NumText N] [BrokerValue V N] [PyText] [Sha1] in
theorem validateRemarkPrefix_congr {config' : QMTConfig}
    (h : config.orderRemarkPrefix = config'.orderRemarkPrefix) :
    (QMTGateway.validateRemarkPrefix config : Except (GatewayError N) Unit) =
      QMTGateway.validateRemarkPrefix config' := by
  rw [QMTGateway.validateRemarkPrefix, QMTGateway.validateRemarkPrefix, h]

omit [BrokerValue V N] [PyText] [Sha1] in
/-- What a gateway is like when it was constructed on a file in order. -/
theorem created (hwritten : IdempotencyStore.Written file records)
    (hlog : QMTGateway.IdentityLog records)
    (hcreate : (QMTGateway.create config file : Except (GatewayError N) _) = .ok g) :
    (QMTGateway.validateRemarkPrefix config : Except (GatewayError N) Unit) = .ok () ∧
      g.config = config ∧ g.brokerToClient = .empty ∧
      QMTGateway.Maps records (g.remarkToClient, g.clientToRemark) ∧
      g.identityStore = IdempotencyStore.upToDate records := by
  cases hvalid : (QMTGateway.validateRemarkPrefix config : Except (GatewayError N) Unit) with
  | error error =>
    rw [QMTGateway.create, hvalid] at hcreate
    cases hcreate
  | ok _ =>
    obtain ⟨maps, hmaps, hopened⟩ := QMTGateway.create_identity (V := V) hwritten hlog hvalid
    rw [hopened] at hcreate
    rw [← Except.ok.inj hcreate]
    exact ⟨rfl, rfl, rfl, hmaps, rfl⟩

variable {f : Fleet V N}

variable {i : ℕ}

theorem step_act_none (remarkPrefix : String) (hprocess : f.processes[i]? = none)
    (action : Action V N) :
    f.step remarkPrefix (.act i action) = f := by
  cases action with
  | elsewhere file => rfl
  | _ => simp only [step, hprocess]

variable {process : Process V N}

theorem step_act (remarkPrefix : String) (hprocess : f.processes[i]? = some process)
    (hown : ∀ file, action ≠ .elsewhere file) :
    f.step remarkPrefix (.act i action) = f.back i ((f.host process).step action) := by
  cases action with
  | elsewhere file => exact absurd rfl (hown file)
  | _ => simp only [step, hprocess]

theorem sent_act (remarkPrefix : String) (f : Fleet V N) (i : ℕ)
    (hown : ∀ file, action ≠ .elsewhere file) (hsend : ∀ j, action ≠ .orderStock j) :
    (f.step remarkPrefix (.act i action)).sent = f.sent := by
  cases hprocess : f.processes[i]? with
  | none => rw [step_act_none remarkPrefix hprocess]
  | some process =>
    rw [step_act remarkPrefix hprocess hown]
    rcases sent_step (f.host process) action with heq | hsending
    · exact heq
    · obtain ⟨j, _, _, haction, _⟩ := hsending
      exact absurd haction (hsend j)

variable {remarkPrefix : String}

/-- A step of any process keeps the file in order. -/
theorem Kept.step (h : Kept remarkPrefix f records) (action : FleetStep V N) :
    ∃ records', Kept remarkPrefix (f.step remarkPrefix action) records' := by
  cases action with
  | start config =>
    rw [Fleet.step]
    cases hcreate : (QMTGateway.create { config with orderRemarkPrefix := remarkPrefix } f.file :
        Except (GatewayError N) (QMTGateway V N)) with
    | error error => exact ⟨records, h⟩
    | ok g =>
      obtain ⟨hvalid, -, -, hmaps, hstore⟩ := created h.written h.log hcreate
      refine ⟨records, h.written, h.log, ?_, h.sent, ?_⟩
      · intro process hmem
        rcases List.mem_append.mp hmem with hmem | hmem
        · exact h.hosts process hmem
        · rw [List.mem_singleton.mp hmem]
          refine ⟨⟨h.written, h.log, ?_, hmaps.byClient⟩, (fun _ _ h ↦ nomatch h), h.sent⟩
          rw [Fleet.host, hstore]
          exact IdempotencyStore.reads_upToDate records
      · intro _ other hother
        rw [← hvalid]
        exact validateRemarkPrefix_congr hother
  | act i action =>
    by_cases hown : ∃ file, action = .elsewhere file
    · obtain ⟨file, rfl⟩ := hown
      exact ⟨records, h⟩
    · replace hown : ∀ file, action ≠ .elsewhere file := fun file heq ↦ hown ⟨file, heq⟩
      cases hprocess : f.processes[i]? with
      | none =>
        rw [step_act_none remarkPrefix hprocess]
        exact ⟨records, h⟩
      | some process =>
        rw [step_act remarkPrefix hprocess hown]
        have hmem := List.mem_of_getElem? hprocess
        obtain ⟨more, htended⟩ := (h.hosts process hmem).step hown
        have hwritten := htended.keeps.written
        have hlog := htended.keeps.log
        have hsent := htended.sent
        refine ⟨records ++ more, hwritten, hlog, ?_, hsent, ?_⟩
        · intro other hother
          rcases List.mem_or_eq_of_mem_set hother with hother | heq
          · exact (h.hosts other hother).append hwritten hlog hsent
          · rw [heq]
            exact htended
        · intro _
          exact h.fit (.inl (List.ne_nil_of_mem hmem))
  | crash i =>
    refine ⟨records, h.written, h.log, ?_, h.sent, ?_⟩
    · exact fun process hmem ↦ h.hosts process (List.mem_of_mem_eraseIdx hmem)
    · intro hsome
      refine h.fit (hsome.imp_left ?_)
      intro hne hnil
      refine hne ?_
      rw [Fleet.step, hnil]
      rfl

theorem named_orderStock {j : ℕ} (hprocess : f.processes[i]? = some process)
    (hsent : ∀ order ∈ f.sent, order.clientOrderId ≠ "") :
    Named f (.act i (.orderStock j)) ↔
      ∀ order ∈ ((f.host process).step (.orderStock j)).sent, order.clientOrderId ≠ "" := by
  have hnamed : Named f (.act i (.orderStock j)) ↔ ∀ order request,
      (f.host process).calls[j]? = some (.sending order request) → order.clientOrderId ≠ "" := by
    constructor
    · exact fun hall ↦ hall process hprocess
    · intro hall process' hprocess'
      rw [hprocess] at hprocess'
      rw [← Option.some.inj hprocess']
      exact hall
  rw [hnamed]
  cases hcall : (f.host process).calls[j]? with
  | none =>
    simp only [Host.step, hcall]
    exact iff_of_true (fun _ _ h ↦ nomatch h) hsent
  | some call =>
    cases call with
    | sending order request =>
      simp only [Host.step, hcall, Option.some.injEq, Call.sending.injEq]
      constructor
      · intro hall sent hmem
        rcases List.mem_append.mp hmem with hmem | hmem
        · exact hsent sent hmem
        · rw [List.mem_singleton.mp hmem]
          exact hall order request ⟨rfl, rfl⟩
      · intro hall order' request' heq
        rw [← heq.1]
        exact hall ⟨order.clientOrderId, request⟩ (by simp)
    | _ =>
      simp only [Host.step, hcall]
      exact iff_of_true (fun _ _ h ↦ nomatch h) hsent

/-- Every order that was sent still has an identifier. -/
theorem named_step {action : FleetStep V N} (hsent : ∀ order ∈ f.sent, order.clientOrderId ≠ "") :
    Named f action ↔
      ∀ order ∈ (f.step remarkPrefix action).sent, order.clientOrderId ≠ "" := by
  have hkept {f' : Fleet V N} (heq : f'.sent = f.sent) := heq ▸ hsent
  cases action with
  | start config =>
    refine iff_of_true trivial (hkept ?_)
    rw [step]
    split
    · rfl
    · rfl
  | crash i => exact iff_of_true trivial hsent
  | act i action =>
    cases action with
    | elsewhere file => exact iff_of_true trivial hsent
    | orderStock j =>
      cases hprocess : f.processes[i]? with
      | none =>
        rw [step_act_none remarkPrefix hprocess]
        refine iff_of_true ?_ hsent
        intro process hsome
        rw [hprocess] at hsome
        cases hsome
      | some process =>
        have hown : ∀ file, (Action.orderStock j : Action V N) ≠ .elsewhere file := fun _ ↦ nofun
        rw [step_act remarkPrefix hprocess hown]
        exact named_orderStock hprocess hsent
    | _ => exact iff_of_true trivial (hkept
      (sent_act remarkPrefix f i (fun _ ↦ nofun) fun _ ↦ nofun))

section

omit [PyText] [Sha1]

theorem Kept.durableIdentity (h : Kept remarkPrefix f records)
    (hsent : ∀ order ∈ f.sent, order.clientOrderId ≠ "") : DurableIdentity remarkPrefix f where
  opens config _ hvalid := by
    obtain ⟨_, _, hopened⟩ := QMTGateway.create_identity (V := V) h.written h.log hvalid
    exact ⟨_, hopened⟩
  resolves g hopens constants rows hrows earlier row later hsplit order horder hremark := by
    obtain ⟨config, hconfig, _, hcreate⟩ := hopens
    obtain ⟨_, _, hbroker, hmaps, _⟩ := created h.written h.log hcreate
    have hnamed (remark : String) : g.remarkToClient.get? remark ≠ some "" :=
      fun hget ↦ ((hmaps.byRemark remark "").mp hget).2 rfl
    have hstart : Attributed rows (g.bindLiveClient constants) (g.bindLiveClient constants) := by
      refine ⟨.refl _, ?_⟩
      intro brokerId clientId hget
      rw [QMTGateway.bindLiveClient, hbroker] at hget
      cases hget
    have hearlier : ∀ other ∈ earlier, other ∈ rows := by
      intro other hmem
      rw [hsplit]
      exact List.mem_append_left _ hmem
    have hrow : row ∈ rows := by
      rw [hsplit]
      simp
    rw [(hstart.ingested hrows hnamed hearlier).resolved_eq hrows hnamed hrow, hremark]
    exact (hmaps.byRemark _ _).mpr ⟨h.sent order horder, hsent order horder⟩
  preflight g hopens constants answers rows g' hanswers hpassed := by
    obtain ⟨config, hconfig, hlive, hcreate⟩ := hopens
    obtain ⟨_, hsame, _⟩ := created h.written h.log hcreate
    refine resolved_of_preflight (g := g.bindLiveClient constants) ?_ hanswers hpassed
    change g.config.dryRun = false
    rw [hsame, hlive]

/-- An order that was sent without an identifier is never resolved. -/
theorem Kept.not_durableIdentity (h : Kept remarkPrefix f records)
    (hsent : ¬ ∀ order ∈ f.sent, order.clientOrderId ≠ "") : ¬ DurableIdentity remarkPrefix f := by
  intro hdurable
  simp only [not_forall, not_not] at hsent
  obtain ⟨order, horder, hnameless⟩ := hsent
  let config : QMTConfig := {
    accountId := ""
    dryRun := false
    liveTradingEnabled := true
    strategyName := ""
    orderRemarkPrefix := remarkPrefix
    requirePreflight := true
    requireRiskApproval := true }
  obtain ⟨g, hcreate⟩ := hdurable.opens config rfl (h.fit (.inr (List.ne_nil_of_mem horder)) _ rfl)
  let value : V := BrokerValue.text order.request.remark
  let constants : XtConstants V :=
    ⟨value, value, value, value, none, none, none, none, none, none, none, none⟩
  let row : OrderRow V := ⟨none, some value, none, none, none, none, none, none⟩
  have hremark : textAttr row.orderRemark = order.request.remark := by
    change (if BrokerValue.truthy value then BrokerValue.str value else "") = _
    rw [BrokerValue.truthy_text, BrokerValue.str_text]
    split
    · rfl
    · rename_i hempty
      simpa using (not_not.mp (fun hne ↦ hempty (decide_eq_true hne))).symm
  have hrows : Identified [row] := by
    intro row' hrow' row'' hrow'' _ _
    rw [List.mem_singleton.mp hrow', List.mem_singleton.mp hrow'']
  have hresolved := hdurable.resolves g ⟨config, rfl, rfl, hcreate⟩ constants [row] hrows [] row []
    rfl order horder hremark
  exact resolved_ne hresolved hnameless

end

/-- In every history of processes that submit, crash and start again, what the identity file
promises holds in every state exactly when no order without a client order identifier is sent. -/
theorem durableIdentity_throughout_iff (remarkPrefix : String) (steps : List (FleetStep V N)) :
    Run.Throughout (step remarkPrefix) (DurableIdentity remarkPrefix) initial steps ↔
      Run.Always (step remarkPrefix) Named (initial : Fleet V N) steps := by
  have hinitial : InOrder remarkPrefix (initial : Fleet V N) :=
    ⟨⟨[], kept_initial remarkPrefix⟩, by simp [initial]⟩
  refine Run.throughout_iff_always_of_invariant ?_ ?_ ?_ hinitial
  · intro f hf
    obtain ⟨⟨records, hkept⟩, hsent⟩ := hf
    exact hkept.durableIdentity hsent
  · intro f action hf hnamed
    obtain ⟨⟨records, hkept⟩, hsent⟩ := hf
    exact ⟨hkept.step action, (named_step hsent).mp hnamed⟩
  · intro f action hf hnamed
    obtain ⟨⟨records, hkept⟩, hsent⟩ := hf
    obtain ⟨records', hkept'⟩ := hkept.step action
    exact hkept'.not_durableIdentity fun hall ↦ hnamed ((named_step hsent).mpr hall)

theorem kept_run (remarkPrefix : String) (h : Kept remarkPrefix f records)
    (steps : List (FleetStep V N)) :
    ∃ records', Kept remarkPrefix (Run.run (step remarkPrefix) f steps) records' :=
  have hstep : ∀ (f : Fleet V N) (action : FleetStep V N),
      (∃ records, Kept remarkPrefix f records) →
        ∃ records, Kept remarkPrefix (step remarkPrefix f action) records :=
    fun _ action hkept ↦ hkept.elim fun _ hkept ↦ hkept.step action
  Run.of_run hstep ⟨records, h⟩ steps

end Step

/-! ## The empty identifier -/

section Nameless

def namelessOrder : Order PyNumber where
  clientOrderId := ""
  symbol := "600000.SH"
  side := .buy
  quantity := 100
  orderType := .limit
  price := some (.int 10)
  riskCheckResult := "approved"

/-- A process submits the order and crashes before the broker answers. -/
def namelessRun : List (FleetStep XtValue PyNumber) := [
  .start liveConfig,
  .act 0 (.bindLiveClient liveConstants),
  .act 0 (.endPreflight []),
  .act 0 (.submit namelessOrder ClaimSystem.noon),
  .act 0 (.orderStock 0),
  .crash 0]

theorem sent_namelessRun :
    (Run.run (step "qa") initial namelessRun).sent.map Sent.clientOrderId = [""] := by
  decide +kernel

/-- The order was sent, and no later gateway knows whose it is. -/
theorem not_durableIdentity_namelessRun :
    ¬ Run.Throughout (step "qa") (DurableIdentity "qa") initial namelessRun := by
  intro hall
  obtain ⟨records, hkept⟩ := kept_run "qa" (kept_initial "qa") namelessRun
  refine hkept.not_durableIdentity ?_ hall.last
  intro hnamed
  have hmem : "" ∈ (Run.run (step "qa") initial namelessRun).sent.map Sent.clientOrderId := by
    rw [sent_namelessRun]
    simp
  obtain ⟨order, horder, hempty⟩ := List.mem_map.mp hmem
  exact hnamed order horder hempty

end Nameless

end Fleet

end QuantAgent.Execution
