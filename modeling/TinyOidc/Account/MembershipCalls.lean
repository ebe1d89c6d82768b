import TinyOidc.Account.GroupChanges

/-! The membership calls as programs that interleave, and what each of them calls. -/
namespace TinyOidc.Account
open TinyOidc.User
open Threads (Prog Entry System)
open Threads.Prog (Obeys)

/-! ### The calls -/

inductive MembershipRequest where
  | add (uid : String) (group : GroupRow) (now : ℤ)
  | remove (uid : String) (group : GroupRow) (now : ℤ)
  | propagate (groupId : String) (rewrite : Rewrite) (now : ℤ)
  deriving DecidableEq

inductive MembershipAnswer where
  | membership (result : MembershipResult)
  | propagation (result : PropagationResult)

def MembershipAnswer.isOk : MembershipAnswer → Bool
  | membership (.ok _ _) | propagation (.ok _ _) => true
  | _ => false

namespace MembershipRequest

def change : MembershipRequest → GroupChange
  | add _ group _ => .add group.name.text
  | remove _ group _ => .remove group.name.text
  | propagate _ rewrite _ => rewrite.change

def groupId : MembershipRequest → String
  | add _ group _ | remove _ group _ => group.id
  | propagate groupId _ _ => groupId

def about (uid : String) : MembershipRequest → Bool
  | add v _ _ | remove v _ _ => v == uid
  | propagate _ _ _ => true

def Apart (q q' : MembershipRequest) : Prop :=
  q.groupId ≠ q'.groupId ∧ ∀ name ∈ q.change.names, name ∉ q'.change.names

instance : DecidableRel Apart := fun _ _ => inferInstanceAs (Decidable (_ ∧ _))

theorem Apart.symm {q q' : MembershipRequest} (h : q.Apart q') : q'.Apart q :=
  ⟨h.1.symm, fun name hname hname' => h.2 name hname' hname⟩

def run : MembershipRequest → Program MembershipAnswer
  | add uid group now => do return .membership (← addMembership uid group now)
  | remove uid group now => do return .membership (← removeMembership uid group now)
  | propagate groupId rewrite now => do
    return .propagation (← propagateToMembers groupId rewrite.apply now)

end MembershipRequest

/-- The calls on a storage that does not fail. -/
def memberships (sha256 : String → Bytes) :
    System MembershipRequest Unit World Op.Answer MembershipAnswer where
  start := MembershipRequest.run
  exec w _ op := w.perform sha256 op
  isOutside _ := false

/-! ### What a call does -/

abbrev Log := List (Entry Op.Answer)

def lastRead (uid : String) : Log → Option (List String)
  | [] => none
  | ⟨.user v .getProfile, some (.profile (.ok read))⟩ :: log =>
      if v = uid then some read.groups else lastRead uid log
  | _ :: log => lastRead uid log

/-- An answer after which a call is done with a user: its change is found made, or written. -/
def settles (c : GroupChange) (uid : String) : Entry Op.Answer → Bool
  | ⟨.user v .getProfile, some (.profile (.ok read))⟩ => v == uid && (c.next read.groups).isNone
  | ⟨.user v (.setGroups _ _), some (.profile (.ok _))⟩ => v == uid
  | _ => false

def settled (c : GroupChange) (uid : String) (log : Log) : Bool := log.any (settles c uid)

def failedOn (uid : String) : Entry Op.Answer → Bool
  | ⟨.user _ _, some (.profile (.ok _))⟩ => false
  | ⟨.user v _, _⟩ => v == uid
  | _ => false

def Walks (log : Log) (groupId : String) (members : List String) : Prop :=
  (⟨.d1 (.memberUserIds groupId (propagationLimit + 1)), .ok members⟩ : Entry Op.Answer) ∈ log ∧
    members.length ≤ propagationLimit

def WorksOn (q : MembershipRequest) (log : Log) (v : String) : Prop :=
  match q with
  | .add uid _ _ | .remove uid _ _ => v = uid
  | .propagate groupId _ _ => ∃ members, Walks log groupId members ∧ v ∈ members

def MembershipPermits (q : MembershipRequest) (log : Log) : Op → Prop
  | .user v .getProfile => WorksOn q log v
  | .user v (.setGroups groups _) =>
      WorksOn q log v ∧ ∃ read, lastRead v log = some read ∧ q.change.next read = some groups
  | .d1 (.memberUserIds groupId limit) =>
      (∃ rewrite now, q = .propagate groupId rewrite now) ∧ limit = propagationLimit + 1
  | .d1 (.insertMembership groupId v _) => ∃ group now, q = .add v group now ∧ groupId = group.id
  | .d1 (.deleteMembership groupId v) => ∃ group now, q = .remove v group now ∧ groupId = group.id
  | _ => False

/-- What an answer `ok` says of the calls made. -/
def MembershipEnds (q : MembershipRequest) (log : Log) (answer : MembershipAnswer) : Prop :=
  answer.isOk = true →
    match q with
    | .add uid _ _ | .remove uid _ _ => settled q.change uid log = true
    | .propagate groupId _ _ => ∃ members, Walks log groupId members ∧
        ∀ v ∈ members, settled q.change v log = true ∨ ∃ entry ∈ log, failedOn v entry = true

section Protocol
variable {q : MembershipRequest} {log : Log} {α : Type} {post : Log → α → Prop}

theorem obeys_userCall {uid : String} {call : Call} {f : Option Reply → Program α}
    (hop : MembershipPermits q log (.user uid call))
    (h : ∀ r, Obeys (MembershipPermits q) post (⟨.user uid call, r⟩ :: log) (f r)) :
    Obeys (MembershipPermits q) post log (userCall uid call >>= f) := ⟨hop, h⟩

theorem obeys_d1 {statement : Statement} {f : Except D1Error statement.Answer → Program α}
    (hop : MembershipPermits q log (.d1 statement))
    (h : ∀ r, Obeys (MembershipPermits q) post (⟨.d1 statement, r⟩ :: log) (f r)) :
    Obeys (MembershipPermits q) post log (d1 statement >>= f) := ⟨hop, h⟩

theorem failedOn_or_profile (uid : String) (call : Call) (r : Option Reply) :
    failedOn uid ⟨.user uid call, r⟩ = true ∨ ∃ read, r = some (.profile (.ok read)) := by
  unfold failedOn
  split
  · next heq =>
    cases heq
    exact .inr ⟨_, rfl⟩
  · next _ heq =>
    cases heq
    exact .inl (by simp)
  · next _ hno => exact (hno uid call r rfl).elim

@[simp] theorem settled_cons (c : GroupChange) (uid : String) (entry : Entry Op.Answer)
    (log : Log) : settled c uid (entry :: log) = (settles c uid entry || settled c uid log) := rfl

theorem settled_of_suffix {c : GroupChange} {uid : String} {log' : Log} (hsuffix : log <:+ log')
    (h : settled c uid log = true) : settled c uid log' = true := by
  obtain ⟨entry, hentry, hsettles⟩ := List.any_eq_true.mp h
  exact List.any_eq_true.mpr ⟨entry, hsuffix.subset hentry, hsettles⟩

theorem changeMembership_obeys {uid : String} (mirror : Statement) (now : ℤ)
    (hworks : ∀ log, WorksOn q log uid) (hmirror : ∀ log, MembershipPermits q log (.d1 mirror)) :
    Obeys (MembershipPermits q)
      (fun log' result => (∃ profile changed, result = .ok profile changed) →
        settled q.change uid log' = true) log
      (changeMembership uid q.change.next mirror now) := by
  have hmirrored : ∀ (log : Log) (profile : UserProfile) (changed : Bool),
      settled q.change uid log = true →
      Obeys (MembershipPermits q)
        (fun log' result => (∃ profile changed, result = .ok profile changed) →
          settled q.change uid log' = true) log
        (changeMembership.mirrored mirror profile changed) := by
    intro log profile changed hsettled
    refine obeys_d1 (hmirror log) fun r => ?_
    cases r with
    | error e => rintro ⟨_, _, ⟨⟩⟩
    | ok _ => exact fun _ => by simp [hsettled]
  refine obeys_userCall (hworks log) fun r => ?_
  split
  · rintro ⟨_, _, ⟨⟩⟩
  · next current =>
    split
    · next hnext => exact hmirrored _ current false (by simp [settles, hnext])
    · next groups hnext =>
      refine obeys_userCall ⟨hworks _, current.groups, by simp [lastRead], hnext⟩ fun r => ?_
      split
      · rintro ⟨_, _, ⟨⟩⟩
      · next updated => exact hmirrored _ updated true (by simp [settles])
      · rintro ⟨_, _, ⟨⟩⟩
  · rintro ⟨_, _, ⟨⟩⟩

theorem WorksOn.suffix {log' : Log} {v : String} (h : WorksOn q log v) (hsuffix : log <:+ log') :
    WorksOn q log' v := by
  cases q with
  | propagate groupId rewrite now =>
    obtain ⟨members, ⟨hread, hlimit⟩, hv⟩ := h
    exact ⟨members, ⟨hsuffix.subset hread, hlimit⟩, hv⟩
  | _ => exact h

theorem propagateTo_obeys {rewrite : Rewrite} {uid : String} (now : ℤ)
    (hworks : WorksOn q log uid) (hchange : q.change = rewrite.change) :
    Obeys (MembershipPermits q)
      (fun log' _ => log <:+ log' ∧
        (settled q.change uid log' = true ∨ ∃ entry ∈ log', failedOn uid entry = true)) log
      (propagateTo uid rewrite.apply now) := by
  refine obeys_userCall hworks fun r => ?_
  have hfailed : (¬ ∃ read, r = some (.profile (.ok read))) →
      ∃ entry ∈ (⟨.user uid .getProfile, r⟩ :: log : Log), failedOn uid entry = true :=
    fun h => ⟨_, List.mem_cons_self, (failedOn_or_profile uid .getProfile r).resolve_right h⟩
  split
  · exact ⟨List.suffix_cons _ _, .inr (hfailed (by simp))⟩
  · next current =>
    rw [rewriting_apply, ← hchange]
    split
    · next hnext => exact ⟨List.suffix_cons _ _, .inl (by simp [settles, hnext])⟩
    · next groups hnext =>
      refine obeys_userCall ⟨hworks.suffix (List.suffix_cons _ _), current.groups,
        by simp [lastRead], hnext⟩ fun r => ?_
      have hsuffix : log <:+ ⟨.user uid (.setGroups groups now), r⟩ ::
          ⟨.user uid .getProfile, some (.profile (.ok current))⟩ :: log :=
        (List.suffix_cons _ _).trans (List.suffix_cons _ _)
      split
      · exact ⟨hsuffix, .inl (by simp [settles])⟩
      · next hno =>
        refine ⟨hsuffix, .inr ⟨_, List.mem_cons_self, ?_⟩⟩
        refine (failedOn_or_profile uid (.setGroups groups now) r).resolve_right ?_
        rintro ⟨read, rfl⟩
        exact hno read rfl
  · next hno =>
    refine ⟨List.suffix_cons _ _, .inr (hfailed ?_)⟩
    rintro ⟨read, h⟩
    cases h
    exact hno read rfl

theorem propagateEach_obeys {rewrite : Rewrite} (now : ℤ) (hchange : q.change = rewrite.change)
    (members : List String) (hworks : ∀ v ∈ members, WorksOn q log v) :
    Obeys (MembershipPermits q)
      (fun log' _ => log <:+ log' ∧ ∀ v ∈ members,
        settled q.change v log' = true ∨ ∃ entry ∈ log', failedOn v entry = true) log
      (propagateEach rewrite.apply now members) := by
  induction members generalizing log with
  | nil => exact ⟨List.suffix_refl _, by simp⟩
  | cons uid rest ih =>
    refine Obeys.bind ((propagateTo_obeys now (hworks uid List.mem_cons_self) hchange).mono ?_)
    rintro log₁ failed ⟨hsuffix₁, hfirst⟩
    have hrest : ∀ v ∈ rest, WorksOn q log₁ v :=
      fun v hv => (hworks v (List.mem_cons_of_mem _ hv)).suffix hsuffix₁
    refine Obeys.bind ((ih hrest).mono ?_)
    rintro log₂ others ⟨hsuffix₂, hothers⟩
    refine ⟨hsuffix₁.trans hsuffix₂, ?_⟩
    intro v hv
    rcases List.mem_cons.mp hv with rfl | hv
    · rcases hfirst with hsettled | ⟨entry, hentry, hfailed⟩
      · exact .inl (settled_of_suffix hsuffix₂ hsettled)
      · exact .inr ⟨entry, hsuffix₂.subset hentry, hfailed⟩
    · exact hothers v hv

theorem run_obeys (q : MembershipRequest) :
    Obeys (MembershipPermits q) (MembershipEnds q) [] q.run := by
  cases q with
  | add uid group now =>
    refine Obeys.bind ((changeMembership_obeys (q := .add uid group now)
      (.insertMembership group.id uid now) now (fun log => rfl)
      fun log => ⟨group, now, rfl, rfl⟩).mono ?_)
    intro log result hsettled hok
    cases result with
    | ok profile changed => exact hsettled ⟨profile, changed, rfl⟩
    | _ => cases hok
  | remove uid group now =>
    refine Obeys.bind ((changeMembership_obeys (q := .remove uid group now)
      (.deleteMembership group.id uid) now (fun log => rfl)
      fun log => ⟨group, now, rfl, rfl⟩).mono ?_)
    intro log result hsettled hok
    cases result with
    | ok profile changed => exact hsettled ⟨profile, changed, rfl⟩
    | _ => cases hok
  | propagate groupId rewrite now =>
    refine Obeys.bind (obeys_d1 ⟨⟨rewrite, now, rfl⟩, rfl⟩ fun r => ?_)
    cases r with
    | error e => exact fun hok => by cases hok
    | ok members =>
      dsimp only
      split
      · exact fun hok => by cases hok
      · next hlimit =>
        have hlimit' : members.length ≤ propagationLimit := by omega
        have hworks : ∀ v ∈ members, WorksOn (.propagate groupId rewrite now)
            [⟨.d1 (.memberUserIds groupId (propagationLimit + 1)), .ok members⟩] v :=
          fun v hv => ⟨members, ⟨List.mem_cons_self, hlimit'⟩, hv⟩
        refine Obeys.bind ((propagateEach_obeys now rfl members hworks).mono ?_)
        rintro log others ⟨hsuffix, hall⟩ hok
        exact ⟨members, ⟨hsuffix.subset List.mem_cons_self, hlimit'⟩, hall⟩

theorem memberships_follow (sha256 : String → Bytes) :
    (memberships sha256).Follows MembershipPermits :=
  fun q => (run_obeys q).mono fun _ _ _ => trivial

end Protocol

end TinyOidc.Account
