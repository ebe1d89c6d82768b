import TinyOidc.Admin.Listings
import TinyOidc.Lib.Lists

/-! What following the cursors of a listing shows: the rows that its filters select, each once, in
the listing's order. A client or an upstream whose row no longer decodes is not shown. -/
namespace TinyOidc.Admin
open RowTable Paging
open Lists (flatMap_eq_filter insertionSort_congr)
open TinyOidc.User (Bytes)
open TinyOidc.Account (Directory RegistryUser MemberRow normalizeEmail)
open TinyOidc.Interaction (UserStatus)
open TinyOidc.Client (ClientRecord GrantType Scope PublicJwk TokenEndpointAuthMethod)
open TinyOidc.Audit (Outcome AuditEvent)
open TinyOidc.Federation (Upstream UpstreamAuthMethod Discovery PublicUpstream publicUpstream)

/-! ### What a walk through the pages shows -/

/-- A page of converted rows is the converted page. -/
theorem page_map {ρ ρ' : Type} (f : ρ → ρ') (rows : List ρ) (limit : ℕ) (keysetOf : ρ' → Keyset)
    (sealKeyset : Keyset → String) :
    page (rows.map f) limit keysetOf sealKeyset =
      ⟨(page rows limit (keysetOf ∘ f) sealKeyset).items.map f,
        (page rows limit (keysetOf ∘ f) sealKeyset).next⟩ := by
  unfold page
  dsimp only
  rw [← List.map_take, List.getLast?_map, List.length_map]
  cases (rows.take limit).getLast? with
  | none => rfl
  | some last => rfl

/-- Exactly these rows, in this order. -/
structure Exact {ρ : Type} (before : ρ → ρ → Prop) (Selected : ρ → Prop) (listed : List ρ) :
    Prop where
  ordered : listed.Pairwise before
  mem : ∀ row, row ∈ listed ↔ Selected row

/-- Older rows first; of one second, by id. -/
def Older {ρ : Type} (keysetOf : ρ → Keyset) (a b : ρ) : Prop :=
  (keysetOf a).createdAt < (keysetOf b).createdAt ∨
    ((keysetOf a).createdAt = (keysetOf b).createdAt ∧ (keysetOf a).id < (keysetOf b).id)

theorem ascending_lt {a b : Keyset} : ascending a < ascending b ↔
    a.createdAt < b.createdAt ∨ (a.createdAt = b.createdAt ∧ a.id < b.id) := by
  simp only [ascending, Prod.Lex.toLex_lt_toLex]

theorem ascending_le {a b : Keyset} : ascending a ≤ ascending b ↔
    a.createdAt < b.createdAt ∨ (a.createdAt = b.createdAt ∧ a.id ≤ b.id) := by
  simp only [ascending, Prod.Lex.toLex_le_toLex]

/-- Keysets differ when ids do. -/
theorem keys_nodup {ρ : Type} {rows : List ρ} {keysetOf : ρ → Keyset}
    (h : (rows.map fun row => (keysetOf row).id).Nodup) :
    (rows.map (ascending ∘ keysetOf)).Nodup := by
  have hid : rows.map (fun row => (keysetOf row).id) =
      (rows.map (ascending ∘ keysetOf)).map fun k => (ofLex k).2 := by
    rw [List.map_map]
    rfl
  rw [hid] at h
  exact h.of_map _

theorem exact_ordered {ρ : Type} {rows : List ρ} {keysetOf : ρ → Keyset}
    (h : (rows.map fun row => (keysetOf row).id).Nodup) :
    Exact (Older keysetOf) (· ∈ rows) (ordered (ascending ∘ keysetOf) rows) where
  ordered := (ordered_strict (keys_nodup h)).imp fun hlt => ascending_lt.mp hlt
  mem _ := mem_ordered

/-! ### Users -/

structure SelectedUser (d : Directory) (query : UserListQuery) (u : RegistryUser) : Prop where
  stored : u ∈ d.users.rows
  email : ∀ email, query.email = some email →
    u.emailNorm = some (normalizeEmail email) ∧ u.emailVerified = true
  status : ∀ status, query.status = some status → u.status = status
  visible : query.status = none → u.status ≠ .creating
  group : ∀ name, query.group = some name → ∃ g ∈ d.groups.rows, g.name.text = name ∧
    ∃ m ∈ d.members.rows, m.groupId = g.id ∧ m.userId = u.id
  after : ∀ raw, query.createdAfter = some raw → timestampOf raw ≤ u.createdAt
  before : ∀ raw, query.createdBefore = some raw → u.createdAt ≤ timestampOf raw

structure UserListQuery.Admitted (query : UserListQuery) : Prop where
  after : ∀ raw, query.createdAfter = some raw → isTimestamp raw = true
  before : ∀ raw, query.createdBefore = some raw → isTimestamp raw = true

theorem bound_admitted {raw : Option String}
    (h : ∀ text, raw = some text → isTimestamp text = true) :
    bound raw = .ok (raw.map timestampOf) := by
  cases raw with
  | none => rfl
  | some text =>
    unfold bound
    dsimp only
    rw [if_pos (h text rfl)]
    rfl

def UserListQuery.filters (query : UserListQuery) (groupId : Option String) : UserFilters :=
  ⟨query.email.map normalizeEmail, query.status, groupId, query.createdAfter.map timestampOf,
    query.createdBefore.map timestampOf⟩

def pagedUsers (d : Directory) (query : UserListQuery) : List RegistryUser :=
  match query.group with
  | none => filteredUsers d (query.filters none)
  | some name =>
    match d.groups.rows.find? (·.name.text == name) with
    | none => []
    | some group => filteredUsers d (query.filters (some group.id))

/-- A user is a member of a group at most once. -/
theorem members_of_pair (d : Directory) (userId groupId : String) :
    (d.members.rows.filter fun m => m.userId = userId && m.groupId = groupId) = [] ∨
      ∃ m, (d.members.rows.filter fun m => m.userId = userId && m.groupId = groupId) = [m] := by
  have hnodup : ((d.members.rows.filter fun m => m.userId = userId && m.groupId = groupId).map
      MemberRow.key).Nodup := d.members.nodup.sublist (List.filter_sublist.map _)
  have hkey : ∀ m ∈ d.members.rows.filter (fun m => m.userId = userId && m.groupId = groupId),
      m.key = (groupId, userId) := by
    intro m hm
    have hpair := (List.mem_filter.mp hm).2
    simp only [Bool.and_eq_true, decide_eq_true_eq] at hpair
    rw [MemberRow.key, hpair.1, hpair.2]
  cases hrows : d.members.rows.filter fun m => m.userId = userId && m.groupId = groupId with
  | nil => exact .inl rfl
  | cons m rest =>
    cases rest with
    | nil => exact .inr ⟨m, rfl⟩
    | cons m' rest =>
      rw [hrows] at hnodup hkey
      have hm := hkey m (by simp)
      have hm' := hkey m' (by simp)
      simp [hm, hm'] at hnodup

/-- So the join with the members of a group has each of them once. -/
theorem filteredUsers_group (d : Directory) (query : UserListQuery) (groupId : String) :
    filteredUsers d (query.filters (some groupId)) = d.users.rows.filter fun u =>
      (d.members.rows.any fun m => m.userId = u.id && m.groupId = groupId) &&
        (query.filters (some groupId)).admits u := by
  unfold filteredUsers UserListQuery.filters
  dsimp only
  apply flatMap_eq_filter
  intro u
  generalize (⟨query.email.map normalizeEmail, query.status, some groupId,
    query.createdAfter.map timestampOf, query.createdBefore.map timestampOf⟩ : UserFilters) =
      filters
  cases hadmits : filters.admits u with
  | false => simp
  | true =>
    simp only [Bool.and_true]
    rcases members_of_pair d u.id groupId with hnone | ⟨m, hone⟩
    · have hany : (d.members.rows.any fun m => m.userId = u.id && m.groupId = groupId) = false := by
        rw [List.any_eq_false]
        exact List.filter_eq_nil_iff.mp hnone
      rw [hnone, hany]
      rfl
    · have hany : (d.members.rows.any fun m => m.userId = u.id && m.groupId = groupId) = true := by
        have hm : m ∈ d.members.rows.filter fun m => m.userId = u.id && m.groupId = groupId := by
          rw [hone]
          exact List.mem_singleton_self m
        exact List.any_eq_true.mpr ⟨m, (List.mem_filter.mp hm).1, (List.mem_filter.mp hm).2⟩
      rw [hone, hany]
      rfl

theorem admits_iff {query : UserListQuery} {groupId : Option String} {u : RegistryUser} :
    (query.filters groupId).admits u = true ↔
      (∀ email, query.email = some email →
        u.emailNorm = some (normalizeEmail email) ∧ u.emailVerified = true) ∧
      (∀ status, query.status = some status → u.status = status) ∧
      (query.status = none → u.status ≠ .creating) ∧
      (∀ raw, query.createdAfter = some raw → timestampOf raw ≤ u.createdAt) ∧
      (∀ raw, query.createdBefore = some raw → u.createdAt ≤ timestampOf raw) := by
  unfold UserFilters.admits UserListQuery.filters
  cases hemail : query.email <;> cases hstatus : query.status <;>
    cases hafter : query.createdAfter <;> cases hbefore : query.createdBefore <;>
    simp [and_assoc]

theorem mem_pagedUsers {d : Directory} {query : UserListQuery} {u : RegistryUser} :
    u ∈ pagedUsers d query ↔ SelectedUser d query u := by
  unfold pagedUsers
  cases hgroup : query.group with
  | none =>
    simp only [filteredUsers, UserListQuery.filters, List.mem_filter]
    rw [show (⟨query.email.map normalizeEmail, query.status, none,
      query.createdAfter.map timestampOf, query.createdBefore.map timestampOf⟩ : UserFilters) =
      query.filters none from rfl, admits_iff]
    constructor
    · rintro ⟨hstored, hemail, hstatus, hvisible, hafter, hbefore⟩
      exact ⟨hstored, hemail, hstatus, hvisible, by simp [hgroup], hafter, hbefore⟩
    · intro h
      exact ⟨h.stored, h.email, h.status, h.visible, h.after, h.before⟩
  | some name =>
    cases hfind : d.groups.rows.find? (·.name.text == name) with
    | none =>
      simp only [hfind, List.not_mem_nil, false_iff]
      intro h
      obtain ⟨g, hg, hname, -⟩ := h.group name hgroup
      have hno := List.find?_eq_none.mp hfind g hg
      simp [hname] at hno
    | some group =>
      have hmem := List.mem_of_find?_eq_some hfind
      have hname : group.name.text = name := by simpa using List.find?_some hfind
      simp only [hfind]
      rw [filteredUsers_group, List.mem_filter, Bool.and_eq_true, admits_iff, List.any_eq_true]
      constructor
      · rintro ⟨hstored, ⟨m, hm, hpair⟩, hemail, hstatus, hvisible, hafter, hbefore⟩
        simp only [Bool.and_eq_true, decide_eq_true_eq] at hpair
        refine ⟨hstored, hemail, hstatus, hvisible, ?_, hafter, hbefore⟩
        intro asked hasked
        rw [hgroup, Option.some.injEq] at hasked
        exact ⟨group, hmem, hname.trans hasked, m, hm, hpair.2, hpair.1⟩
      · intro h
        obtain ⟨g, hg, hgname, m, hm, hgroupId, huserId⟩ := h.group name hgroup
        have heq : g = group := by
          have htext : g.name = group.name := by
            have hsame : g.name.text = group.name.text := hgname.trans hname.symm
            cases hgn : g.name
            cases hgn' : group.name
            simpa [hgn, hgn'] using hsame
          exact List.inj_on_of_nodup_map d.groupNames hg hmem htext
        rw [heq] at hgroupId
        exact ⟨h.stored, ⟨m, hm, by simp [hgroupId, huserId]⟩, h.email, h.status, h.visible,
          h.after, h.before⟩

theorem pagedUsers_nodup (d : Directory) (query : UserListQuery) :
    ((pagedUsers d query).map fun u => (userKeyset u).id).Nodup := by
  have hfilter : ∀ p : RegistryUser → Bool,
      ((d.users.rows.filter p).map fun u => (userKeyset u).id).Nodup :=
    fun p => d.users.nodup.sublist (List.filter_sublist.map _)
  unfold pagedUsers
  split
  · exact hfilter _
  · split
    · exact List.nodup_nil
    · rw [filteredUsers_group]
      exact hfilter _

theorem listUsersHandler_serves (runtime : Runtime) (requests : ℕ → PageRequest) (d : Directory)
    {query : UserListQuery} (hadmitted : query.Admitted) :
    Serves runtime usersListing ascending userKeyset (some ∘ publicUser) (pagedUsers d query)
      requests fun i cursor => (listUsersHandler runtime (requests i).keys (requests i).now (some d)
        { query with limit := (requests i).limit, cursor := cursor }).page? := by
  intro i cursor
  unfold listUsersHandler
  dsimp only
  congr 2
  funext limit after
  rw [bound_admitted hadmitted.after, bound_admitted hadmitted.before]
  unfold pagedUsers
  cases hgroup : query.group with
  | none =>
    dsimp only
    rw [page_map, List.filterMap_eq_map]
    rfl
  | some name =>
    dsimp only
    cases hfind : d.groups.rows.find? (·.name.text == name) with
    | none => simp [fetch, remaining, ordered, page]
    | some group =>
      dsimp only
      rw [page_map, List.filterMap_eq_map]
      rfl

/-! ### Clients and upstreams -/

theorem shownPage_map {ρ α β : Type} (keysetOf : ρ → Keyset) (decode : ρ → Option α)
    (shown : α → β) (rows : List ρ) (limit : ℕ) (sealKeyset : Keyset → String) :
    shownPage shown (page (rows.map fun raw => ⟨keysetOf raw, decode raw⟩) limit Listed.keyset
      sealKeyset) =
      .listed ⟨(page rows limit keysetOf sealKeyset).items.filterMap fun raw =>
        (decode raw).map shown, (page rows limit keysetOf sealKeyset).next⟩ := by
  rw [page_map]
  unfold shownPage
  rw [List.flatMap_map, List.filterMap_eq_flatMap_toList]
  rfl

theorem listClientsHandler_serves (runtime : Runtime) (requests : ℕ → PageRequest)
    (schemas : ColumnSchemas) (t : ClientRows) :
    Serves runtime clientsListing ascending clientKeyset
      (fun raw => (decodeClientRow schemas raw).map publicClient) t.rows requests
      fun i cursor => (listClientsHandler runtime (requests i).keys (requests i).now schemas
        (some t) ⟨(requests i).limit, cursor⟩).page? := by
  intro i cursor
  unfold listClientsHandler listClientsPage
  dsimp only
  congr 2
  funext limit after
  rw [shownPage_map]

theorem listUpstreamsHandler_serves (runtime : Runtime) (requests : ℕ → PageRequest)
    (issuerUrl : String) (schemas : ColumnSchemas) (t : UpstreamRows) :
    Serves runtime upstreamsListing ascending upstreamKeyset
      (fun raw => (decodeUpstreamRow schemas raw).map (publicUpstream · issuerUrl)) t.rows
      requests fun i cursor => (listUpstreamsHandler runtime (requests i).keys (requests i).now
        issuerUrl schemas (some t) ⟨(requests i).limit, cursor⟩).page? := by
  intro i cursor
  unfold listUpstreamsHandler listUpstreamsPage
  dsimp only
  congr 2
  funext limit after
  rw [shownPage_map]

/-! ### The hot audit table -/

/-- The order of `(ts, id)`, newest first. -/
def descending (keyset : Keyset) : (ℤ ×ₗ String)ᵒᵈ := OrderDual.toDual (ascending keyset)

def auditKeyset (row : AuditRow) : Keyset := ⟨row.ts, row.id⟩

theorem earlier_iff {row : AuditRow} {after : Keyset} :
    earlier row after = true ↔ descending after < descending (auditKeyset row) := by
  unfold descending
  rw [OrderDual.toDual_lt_toDual, ascending_lt]
  simp [earlier, auditKeyset]

theorem notEarlier_iff {a b : AuditRow} :
    notEarlier a b = true ↔ descending (auditKeyset a) ≤ descending (auditKeyset b) := by
  unfold descending
  rw [OrderDual.toDual_le_toDual, ascending_le]
  simp [notEarlier, auditKeyset]

/-- The query's comparisons are the order's. -/
theorem auditPage_eq (t : AuditRows) (filters : AuditFilters) (after : Option Keyset)
    (limit : ℕ) : auditPage t filters after limit =
      fetch (descending ∘ auditKeyset) (t.rows.filter filters.admits) (after.map descending)
        limit := by
  have hafter : ∀ row, after.all (earlier row) =
      (after.map descending).all (· < descending (auditKeyset row)) := by
    intro row
    cases after with
    | none => rfl
    | some keyset =>
      rw [Option.map_some, Option.all_some, Option.all_some, Bool.eq_iff_iff, earlier_iff,
        decide_eq_true_eq]
  have hrows : t.rows.filter (fun row => filters.admits row && after.all (earlier row)) =
      (t.rows.filter filters.admits).filter fun row =>
        (after.map descending).all (· < descending (auditKeyset row)) := by
    rw [List.filter_filter]
    apply List.filter_congr
    intro row _
    rw [hafter, Bool.and_comm]
  unfold auditPage
  rw [hrows, insertionSort_congr fun a b => notEarlier_iff]
  rfl

structure SelectedEvent (t : AuditRows) (query : AuditQuery) (row : AuditRow) : Prop where
  stored : row ∈ t.rows
  type : ∀ type, query.type = some type → row.type = type
  user : ∀ id, query.userId = some id → row.userId = some id
  client : ∀ id, query.clientId = some id → row.clientId = some id
  actor : ∀ id, query.actorId = some id → row.actorId = some id
  outcome : ∀ outcome, query.outcome = some outcome → row.outcome = outcome
  since : ∀ raw, query.since = some raw → timestampOf raw ≤ row.ts
  until_ : ∀ raw, query.until_ = some raw → row.ts ≤ timestampOf raw

structure AuditQuery.Admitted (query : AuditQuery) : Prop where
  since : ∀ raw, query.since = some raw → isTimestamp raw = true
  until_ : ∀ raw, query.until_ = some raw → isTimestamp raw = true

def AuditQuery.filters (query : AuditQuery) : AuditFilters :=
  ⟨query.type, query.userId, query.clientId, query.actorId, query.outcome,
    query.since.map timestampOf, query.until_.map timestampOf⟩

theorem all_iff {α : Type} {value : Option α} {p : α → Bool} :
    value.all p = true ↔ ∀ a, value = some a → p a = true := by
  cases value with
  | none => simp
  | some a => simp

theorem mem_pagedEvents {t : AuditRows} {query : AuditQuery} {row : AuditRow} :
    row ∈ t.rows.filter query.filters.admits ↔ SelectedEvent t query row := by
  have hmap : ∀ {raw : Option String} {p : ℤ → Bool},
      (raw.map timestampOf).all p = true ↔
        ∀ text, raw = some text → p (timestampOf text) = true := by
    intro raw p
    cases raw with
    | none => simp
    | some text => simp
  rw [List.mem_filter]
  simp only [AuditFilters.admits, AuditQuery.filters, Bool.and_eq_true, all_iff, hmap, beq_iff_eq,
    decide_eq_true_eq]
  constructor
  · rintro ⟨hstored, ⟨⟨⟨⟨⟨⟨htype, huser⟩, hclient⟩, hactor⟩, houtcome⟩, hsince⟩, huntil⟩⟩
    exact ⟨hstored, htype, huser, hclient, hactor, houtcome, hsince, huntil⟩
  · intro h
    exact ⟨h.stored, ⟨⟨⟨⟨⟨⟨h.type, h.user⟩, h.client⟩, h.actor⟩, h.outcome⟩, h.since⟩, h.until_⟩⟩

theorem listAuditHandler_serves {δ : Type} (runtime : Runtime) (requests : ℕ → PageRequest)
    (dataOf : String → δ) (t : AuditRows) {query : AuditQuery} (hadmitted : query.Admitted) :
    Serves runtime auditListing descending auditKeyset (some ∘ rowToEvent dataOf)
      (t.rows.filter query.filters.admits) requests
      fun i cursor => (listAuditHandler runtime (requests i).keys (requests i).now dataOf (some t)
        { query with limit := (requests i).limit, cursor := cursor }).page? := by
  intro i cursor
  unfold listAuditHandler
  dsimp only
  congr 2
  funext limit after
  rw [bound_admitted hadmitted.since, bound_admitted hadmitted.until_]
  dsimp only
  rw [page_map, auditPage_eq, List.filterMap_eq_map]
  rfl

theorem exact_descending {t : AuditRows} {query : AuditQuery} :
    Exact (fun a b => Older auditKeyset b a) (SelectedEvent t query)
      (ordered (descending ∘ auditKeyset) (t.rows.filter query.filters.admits)) := by
  have hids : ((t.rows.filter query.filters.admits).map fun row => (auditKeyset row).id).Nodup :=
    t.nodup.sublist (List.filter_sublist.map _)
  constructor
  · have hstrict := @ordered_strict _ _ _ (descending ∘ auditKeyset) _ (keys_nodup hids)
    exact hstrict.imp fun hlt => ascending_lt.mp (OrderDual.toDual_lt_toDual.mp hlt)
  · intro row
    rw [mem_ordered]
    exact mem_pagedEvents

/-! ### Complete listings -/

/-- Following the cursors from the first page to a null cursor shows these items. -/
def Shows {β : Type} (requests : ℕ → PageRequest)
    (handler : PageRequest → Option String → ListResponse β) (items : List β) : Prop :=
  ∃ fuel, follow (fun i cursor => (handler (requests i) cursor).page?) fuel 0 none = some items

/-- Times that the runtime counts exactly. -/
def SafeTimes {ρ : Type} (keysetOf : ρ → Keyset) (rows : List ρ) : Prop :=
  ∀ row ∈ rows, isSafeInteger (keysetOf row).createdAt = true

/-- Following the cursors of a listing, with any admitted filters and limits, shows the selected
rows in order, each once, and ends with a null cursor; of the clients and the upstreams, those
whose rows still decode. A sealed cursor opens to its keyset for its own listing until it
expires, and for no other listing or later time. -/
theorem listings_complete (runtime : Runtime) (requests : ℕ → PageRequest)
    (hrequests : Requests requests) :
    (∀ (d : Directory) (query : UserListQuery), SafeTimes userKeyset d.users.rows →
      query.Admitted → ∃ users, Exact (Older userKeyset) (SelectedUser d query) users ∧
        Shows requests (fun request cursor => listUsersHandler runtime request.keys request.now
          (some d) { query with limit := request.limit, cursor := cursor })
          (users.map publicUser)) ∧
    (∀ (schemas : ColumnSchemas) (t : ClientRows), SafeTimes clientKeyset t.rows →
      ∃ raws, Exact (Older clientKeyset) (· ∈ t.rows) raws ∧
        Shows requests (fun request cursor => listClientsHandler runtime request.keys request.now
          schemas (some t) ⟨request.limit, cursor⟩)
          ((raws.filterMap (decodeClientRow schemas)).map publicClient)) ∧
    (∀ (schemas : ColumnSchemas) (issuerUrl : String) (t : UpstreamRows),
      SafeTimes upstreamKeyset t.rows →
      ∃ raws, Exact (Older upstreamKeyset) (· ∈ t.rows) raws ∧
        Shows requests (fun request cursor => listUpstreamsHandler runtime request.keys
          request.now issuerUrl schemas (some t) ⟨request.limit, cursor⟩)
          ((raws.filterMap (decodeUpstreamRow schemas)).map (publicUpstream · issuerUrl))) ∧
    (∀ (δ : Type) (dataOf : String → δ) (t : AuditRows) (query : AuditQuery),
      SafeTimes auditKeyset t.rows → query.Admitted →
      ∃ rows, Exact (fun a b => Older auditKeyset b a) (SelectedEvent t query) rows ∧
        Shows requests (fun request cursor => listAuditHandler runtime request.keys request.now
          dataOf (some t) { query with limit := request.limit, cursor := cursor })
          (rows.map (rowToEvent dataOf))) ∧
    (∀ (keys keys' : CursorKeys) (listing other : String) (keyset : Keyset) (now later : ℤ),
      keys'.hmacKey keys.active = keys.hmacKey keys.active →
      isSafeInteger keyset.createdAt = true → isSafeInteger (now + cursorTtlSeconds) = true →
      openCursor runtime keys' other (sealCursor runtime keys listing keyset now) later =
        if listing = other ∧ later < now + cursorTtlSeconds then some keyset else none) := by
  refine ⟨?_, ?_, ?_, ?_, ?_⟩
  · intro d query hsafe hadmitted
    have hids := pagedUsers_nodup d query
    have hpaged : SafeTimes userKeyset (pagedUsers d query) :=
      fun u hu => hsafe u (mem_pagedUsers.mp hu).stored
    have hfollow := follow_serves (listUsersHandler_serves runtime requests d hadmitted)
      (keys_nodup hids) hpaged hrequests
    rw [List.filterMap_eq_map] at hfollow
    have hexact := exact_ordered hids
    exact ⟨_, ⟨hexact.ordered, fun u => (hexact.mem u).trans mem_pagedUsers⟩, _, hfollow⟩
  · intro schemas t hsafe
    have hfollow := follow_serves (listClientsHandler_serves runtime requests schemas t)
      (keys_nodup t.nodup) hsafe hrequests
    rw [← List.map_filterMap] at hfollow
    exact ⟨_, exact_ordered t.nodup, _, hfollow⟩
  · intro schemas issuerUrl t hsafe
    have hfollow := follow_serves (listUpstreamsHandler_serves runtime requests issuerUrl schemas t)
      (keys_nodup t.nodup) hsafe hrequests
    rw [← List.map_filterMap] at hfollow
    exact ⟨_, exact_ordered t.nodup, _, hfollow⟩
  · intro δ dataOf t query hsafe hadmitted
    have hids : ((t.rows.filter query.filters.admits).map
        fun row => (auditKeyset row).id).Nodup := t.nodup.sublist (List.filter_sublist.map _)
    have hpaged : SafeTimes auditKeyset (t.rows.filter query.filters.admits) :=
      fun row hrow => hsafe row (List.mem_of_mem_filter hrow)
    have hfollow := follow_serves (listAuditHandler_serves runtime requests dataOf t hadmitted)
      (keys_nodup hids) hpaged hrequests
    rw [List.filterMap_eq_map] at hfollow
    exact ⟨_, exact_descending, _, hfollow⟩
  · intro keys keys' listing other keyset now later hkept hcreated hexpires
    exact openCursor_sealCursor runtime hkept hcreated hexpires

namespace ListingSample

def runtime : Runtime := ⟨fun key bytes => key ++ bytes, fun _ => []⟩

def keys : CursorKeys := ⟨fun version => if version = 7 then some [1, 2] else none, 7, by decide,
  by decide⟩

def requests (_ : ℕ) : PageRequest := ⟨keys, 100, some "1"⟩

theorem requests_admitted : Requests requests where
  limits _ := (by decide : (parseLimit (some "1")).isSome = true)
  clock _ := (by decide : isSafeInteger (100 + cursorTtlSeconds) = true)
  steps _ := (by decide : (100 : ℤ) < 100 + cursorTtlSeconds)
  kept _ := rfl

def event (id : String) : AuditRow :=
  ⟨id, 50, "login", .success, "user", none, some "u1", none, none, none, "\x7b\x7d", none, none,
    none, none, "r1", none⟩

/-- Two events of one second. -/
def events : AuditRows := ⟨[event "a", event "b"], by decide⟩

def query : AuditQuery := ⟨none, none, some "login", none, none, none, none, some "50", none⟩

/-- A client whose redirect URIs are not JSON, and schemas that read the array of none. -/
def corrupt : RawClientRow :=
  ⟨"app", "App", none, none, "[", "[]", none, "[]", .none, none, none, none, "[]", "[]", none, 0, 0,
    1, 0, none, none, none, none, none, 5, 5⟩

def schemas : ColumnSchemas where
  strings text := if text = "[]" then some [] else none
  grants text := if text = "[]" then some [] else none
  scopes text := if text = "[]" then some [] else none
  jwks _ := none
  discovery _ := none
  claimsMap _ := false
  scalars _ := false
  stringMap _ := false

def clients : ClientRows := ⟨[corrupt], by decide⟩

end ListingSample

theorem listings_complete_sample :
    (∃ rows, Exact (fun a b => Older auditKeyset b a)
        (SelectedEvent ListingSample.events ListingSample.query) rows ∧
      Shows ListingSample.requests (fun request cursor => listAuditHandler ListingSample.runtime
        request.keys request.now id (some ListingSample.events)
        { ListingSample.query with limit := request.limit, cursor := cursor })
        (rows.map (rowToEvent id))) ∧
    openCursor ListingSample.runtime ListingSample.keys "audit"
      (sealCursor ListingSample.runtime ListingSample.keys "audit" ⟨50, "b"⟩ 100) 3699 =
        some ⟨50, "b"⟩ :=
  have hall := listings_complete ListingSample.runtime ListingSample.requests
    ListingSample.requests_admitted
  ⟨hall.2.2.2.1 String id ListingSample.events ListingSample.query
      (by unfold SafeTimes; decide) ⟨by rintro raw ⟨⟩; decide, by rintro raw ⟨⟩⟩,
    hall.2.2.2.2 ListingSample.keys ListingSample.keys "audit" "audit" ⟨50, "b"⟩ 100 3699 rfl
      (by decide) (by decide)⟩

/-- A client whose row no longer decodes is stored, and not shown. -/
theorem corrupt_client_unlisted :
    ¬ ∀ (schemas : ColumnSchemas) (t : ClientRows), SafeTimes clientKeyset t.rows →
      ∃ items, Shows ListingSample.requests (fun request cursor => listClientsHandler
          ListingSample.runtime request.keys request.now schemas (some t) ⟨request.limit, cursor⟩)
          items ∧ items.length = t.rows.length := by
  intro hall
  have hsafe : SafeTimes clientKeyset ListingSample.clients.rows := by
    unfold SafeTimes
    decide
  obtain ⟨items, ⟨fuel, hfollow⟩, hlength⟩ :=
    hall ListingSample.schemas ListingSample.clients hsafe
  cases fuel with
  | zero => cases hfollow
  | succ fuel =>
    have hpage : (listClientsHandler ListingSample.runtime ListingSample.keys 100
        ListingSample.schemas (some ListingSample.clients) ⟨some "1", none⟩).page? =
          some ⟨[], none⟩ := by
      rfl
    rw [follow] at hfollow
    dsimp only [ListingSample.requests] at hfollow
    rw [hpage] at hfollow
    cases hfollow
    cases hlength

end TinyOidc.Admin
