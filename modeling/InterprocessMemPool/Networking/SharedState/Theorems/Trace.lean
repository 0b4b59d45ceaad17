import InterprocessMemPool.Networking.SharedState.Basic

namespace BeastNetworking

theorem Kind.mem_all {k : Kind} : k ∈ all := by
  cases k <;> simp [all]

namespace SharedState

variable {ε : Type*} {env : Sessions ε} {s s' : SharedState} {c c' : SendAsync ε}
variable {order : Order} {l l' : Call ε} {i j : ℕ} {cfg : Config ε}

abbrev Records (ε : Type*) :=
  List (Program.Record SharedState (Call ε))

variable {rs : Records ε} {r : Program.Record SharedState (Call ε)}

-- The session whose weak pointer is locked by a step of `sendAsync`.
def SendAsync.reads (s : SharedState) (c : SendAsync ε) : Option Session :=
  match c.pc with
  | .walking k allocation position last =>
    if position = last ∨ allocation ≠ (s.sessionPointerPool k).allocation then none
    else (s.sessionPointerPool k).items[position]?
  | _                                   => none

def visit (r : Program.Record SharedState (Call ε)) : Option (Session × SharedState) :=
  match r.pre with
  | (s, .sendAsync c) => (c.reads s).map (·, s)
  | _                 => none

-- The sessions that a call has got to, each with the state at that time.
def visits (rs : Records ε) : List (Session × SharedState) :=
  rs.filterMap visit

-- What a call has posted to the sessions.
def posted (rs : Records ε) : List (Session × Message) :=
  rs.flatMap fun r => r.post.1.posts.drop r.pre.1.posts.length

-- The completion handlers that a call has called with `not_connected`.
def notified (rs : Records ε) : List ℕ :=
  rs.flatMap fun r => r.post.1.not_connected.drop r.pre.1.not_connected.length

-- The sessions in the sets that a call is for.
def registered (target : Target ε) (s : SharedState) : List Session :=
  Kind.all.flatMap fun k => if target.selects k then s.sessions k else []

theorem visits_concat : visits (rs ++ [r]) = visits rs ++ (visit r).toList := by
  cases h : visit r <;> simp [visits, h]

theorem posted_concat (rs : Records ε) (ps : List (Session × Message))
    (h : r.post.1.posts = r.pre.1.posts ++ ps) :
    posted (rs ++ [r]) = posted rs ++ ps := by
  simp [posted, h]

theorem notified_concat (rs : Records ε) (ns : List ℕ)
    (h : r.post.1.not_connected = r.pre.1.not_connected ++ ns) :
    notified (rs ++ [r]) = notified rs ++ ns := by
  simp [notified, h]

variable [DecidableEq ε]

-- The session is sent to if its turn comes in this state.
def Reaches (env : Sessions ε) (target : Target ε) (v : Session × SharedState) : Prop :=
  v.1 ∉ v.2.expired ∧ target.isFor env v.1

instance {target : Target ε} : DecidablePred (Reaches env target) :=
  fun v => inferInstanceAs (Decidable (v.1 ∉ v.2.expired ∧ target.isFor env v.1))

-- What a step of `sendAsync` does.
inductive Effect (env : Sessions ε) (s : SharedState) (c : SendAsync ε) :
    SharedState → SendAsync ε → Prop
  | snapshot {order : Order} : c.pc = .entered → (∀ k, (order k).Perm (s.sessions k)) →
    Effect env s c (s.snapshot c.target order) { c with pc := .looping .ws }
  | loop {k} : c.pc = .looping k →
    Effect env s c s { c with
      pc := .walking k (s.sessionPointerPool k).allocation 0 (s.sessionPointerPool k).items.length }
  | next {k allocation last} : c.pc = .walking k allocation last last →
    Effect env s c s { c with pc := k.next.elim .finishing .looping }
  | fault {k allocation position last} : c.pc = .walking k allocation position last →
    position ≠ last → (allocation = (s.sessionPointerPool k).allocation →
      (s.sessionPointerPool k).items[position]? = none) →
    Effect env s c s { c with pc := .faulted }
  | send {k position last wp} :
    c.pc = .walking k (s.sessionPointerPool k).allocation position last → position ≠ last →
    (s.sessionPointerPool k).items[position]? = some wp → Reaches env c.target (wp, s) →
    Effect env s c { s with posts := s.posts ++ [(wp, c.message)] } { c with
      pc          := .walking k (s.sessionPointerPool k).allocation (position + 1) last
      sent_to_any := true }
  | skip {k position last wp} :
    c.pc = .walking k (s.sessionPointerPool k).allocation position last → position ≠ last →
    (s.sessionPointerPool k).items[position]? = some wp → ¬Reaches env c.target (wp, s) →
    Effect env s c s { c with
      pc := .walking k (s.sessionPointerPool k).allocation (position + 1) last }
  | finish : c.pc = .finishing →
    Effect env s c { s with not_connected := s.not_connected ++
      if c.sent_to_any then [] else c.message.completionHandler.toList } { c with pc := .returned }

theorem effect (h : c.step env order s = some (s', c')) : Effect env s c s' c' := by
  rw [SendAsync.step] at h
  split at h
  case h_1 hpc =>
    rw [Option.ite_none_right_eq_some, List.all_eq_true] at h
    obtain ⟨ho, h⟩ := h
    obtain ⟨rfl, rfl⟩ := Prod.mk.inj (Option.some.inj h)
    exact .snapshot hpc fun k => List.isPerm_iff.mp (ho k Kind.mem_all)
  case h_2 hpc =>
    obtain ⟨rfl, rfl⟩ := Prod.mk.inj (Option.some.inj h)
    exact .loop hpc
  case h_3 hpc =>
    split at h
    case isTrue hl =>
      obtain ⟨rfl, rfl⟩ := Prod.mk.inj (Option.some.inj h)
      exact .next (hl ▸ hpc)
    case isFalse hl =>
      split at h
      case isTrue ha =>
        obtain ⟨rfl, rfl⟩ := Prod.mk.inj (Option.some.inj h)
        exact .fault hpc hl fun he => absurd he ha
      case isFalse ha =>
        split at h
        case h_1 hw =>
          obtain ⟨rfl, rfl⟩ := Prod.mk.inj (Option.some.inj h)
          exact .fault hpc hl fun _ => hw
        case h_2 hw =>
          split at h <;> obtain ⟨rfl, rfl⟩ := Prod.mk.inj (Option.some.inj h)
          all_goals rw [Classical.not_not.mp ha] at hpc ⊢
          case isTrue hs  => exact .send hpc hl hw hs
          case isFalse hs => exact .skip hpc hl hw hs
  case h_4 hpc =>
    have : Effect env s c _ _ := .finish hpc
    split at h <;> obtain ⟨rfl, rfl⟩ := Prod.mk.inj (Option.some.inj h)
    all_goals simpa [*] using this
  case h_5 => simp at h
  case h_6 => simp at h

theorem effect_of_step {x : Order} (h : (program env).step x s (.sendAsync c) = some (s', l')) :
    ∃ c', l' = .sendAsync c' ∧ Effect env s c s' c' := by
  obtain ⟨⟨s', c'⟩, hs, he⟩ := Option.map_eq_some_iff.mp h
  obtain ⟨rfl, rfl⟩ := Prod.mk.inj he
  exact ⟨c', rfl, effect hs⟩

-- What a call has posted is what it should have, given the sessions that it has got to.
structure Faithful (env : Sessions ε) (c : SendAsync ε) (rs : Records ε) : Prop where
  posted      : posted rs = ((visits rs).filter (Reaches env c.target)).map (·.1, c.message)
  sent_to_any : c.sent_to_any = false ↔ SharedState.posted rs = []
  notified    : notified rs = if c.pc = .returned ∧ SharedState.posted rs = [] then
    c.message.completionHandler.toList else []

theorem Faithful.concat_of_quiet {pc : SendAsync.Pc} (h : Faithful env c rs) (hv : visit r = none)
    (hp : r.post.1.posts = r.pre.1.posts) (hn : r.post.1.not_connected = r.pre.1.not_connected)
    (hc : c.pc ≠ .returned) (hc' : pc ≠ .returned) :
    Faithful env { c with pc := pc } (rs ++ [r]) := by
  have hp := posted_concat rs [] (hp.trans (List.append_nil _).symm)
  have hn := notified_concat rs [] (hn.trans (List.append_nil _).symm)
  rw [List.append_nil] at hp hn
  constructor
  case posted      => simpa [hp, visits_concat, hv] using h.posted
  case sent_to_any => simpa [hp] using h.sent_to_any
  case notified    => simp [hn, h.notified, hc, hc']

theorem faithful_step (h : Faithful env c rs)
    (e : Effect env s c s' c') (hr : r.pre = (s, .sendAsync c)) (hr' : r.post.1 = s') :
    Faithful env c' (rs ++ [r]) := by
  cases e
  case snapshot hpc _ =>
    refine h.concat_of_quiet ?_ ?_ ?_ (by simp [hpc]) (by simp)
    · simp [visit, hr, SendAsync.reads, hpc]
    · simp [hr, hr', snapshot]
    · simp [hr, hr', snapshot]
  case loop hpc =>
    refine h.concat_of_quiet ?_ ?_ ?_ (by simp [hpc]) (by simp)
    · simp [visit, hr, SendAsync.reads, hpc]
    · simp [hr, hr']
    · simp [hr, hr']
  case next k _ _ hpc =>
    refine h.concat_of_quiet ?_ ?_ ?_ (by simp [hpc]) (by cases k <;> simp [Kind.next])
    · simp [visit, hr, SendAsync.reads, hpc]
    · simp [hr, hr']
    · simp [hr, hr']
  case fault hpc _ hf =>
    refine h.concat_of_quiet ?_ ?_ ?_ (by simp [hpc]) (by simp)
    · simpa [visit, hr, SendAsync.reads, hpc] using fun _ => hf
    · simp [hr, hr']
    · simp [hr, hr']
  case send k position last wp hpc hl hw hs =>
    have hv : visit r = some (wp, s) := by simp [visit, hr, SendAsync.reads, hpc, hl, hw]
    have hp := posted_concat (r := r) rs [(wp, c.message)] (by simp [hr, hr'])
    have hn := notified_concat (r := r) rs [] (by simp [hr, hr'])
    constructor
    case posted      => simp [hp, visits_concat, hv, h.posted, hs]
    case sent_to_any => simp [hp]
    case notified    => simp [hn, h.notified, hpc]
  case skip k position last wp hpc hl hw hs =>
    have hv : visit r = some (wp, s) := by simp [visit, hr, SendAsync.reads, hpc, hl, hw]
    have hp := posted_concat (r := r) rs [] (by simp [hr, hr'])
    have hn := notified_concat (r := r) rs [] (by simp [hr, hr'])
    constructor
    case posted      => simp [hp, visits_concat, hv, h.posted, hs]
    case sent_to_any => simp [hp, h.sent_to_any]
    case notified    => simp [hn, h.notified, hpc]
  case finish hpc =>
    have hv : visit r = none := by simp [visit, hr, SendAsync.reads, hpc]
    have hp := posted_concat (r := r) rs [] (by simp [hr, hr'])
    have hn := notified_concat (r := r) rs
      (if c.sent_to_any then [] else c.message.completionHandler.toList) (by simp [hr, hr'])
    constructor
    case posted      => simp [hp, visits_concat, hv, h.posted]
    case sent_to_any => simp [hp, h.sent_to_any]
    case notified    =>
      have hz : notified rs = [] := by simpa [hpc] using h.notified
      have := h.sent_to_any
      cases hs : c.sent_to_any <;> simp_all

theorem faithful (h : (system env).Reachable cfg) (hc : cfg.calls[i]? = some (.sendAsync c)) :
    Faithful env c (cfg.recordsOf i) := by
  refine Program.local_invariant (J := fun l rs => ∀ c, l = .sendAsync c → Faithful env c rs)
    ?_ ?_ h hc c rfl
  · rintro _ hs c rfl
    simp only [program, Call.starts, decide_eq_true_eq] at hs
    constructor <;> simp [posted, visits, notified, hs]
  · rintro i x s l s' l' rs ih hs c' rfl
    cases l <;> simp only [program, Call.step, Option.map_eq_some_iff, Prod.mk.injEq,
      Call.sendAsync.injEq, Option.ite_none_left_eq_some, Option.ite_none_right_eq_some,
      Option.some.injEq, reduceCtorEq, and_false] at hs
    case sendAsync c =>
      obtain ⟨_, hs, rfl, rfl⟩ := hs
      exact faithful_step (ih c rfl) (effect hs) rfl rfl

end SharedState
end BeastNetworking
