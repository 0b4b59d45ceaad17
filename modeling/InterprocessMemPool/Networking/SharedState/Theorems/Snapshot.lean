import InterprocessMemPool.Networking.SharedState.Theorems.Trace

namespace BeastNetworking

namespace Kind

variable {k k' : Kind}

def before : Kind → List Kind
  | .ws    => []
  | .wss   => [.ws]
  | .http  => [.ws, .wss]
  | .https => [.ws, .wss, .http]

theorem before_next (h : k.next = some k') : k'.before = k.before ++ [k] := by
  cases k <;> cases h <;> rfl

theorem all_of_next_none (h : k.next = none) : all = k.before ++ [k] := by
  cases k <;> first | rfl | cases h

end Kind

theorem Vector.reserve_items {α : Type*} {v : Vector α} {n : ℕ} :
    (v.reserve n).items = v.items := by
  rw [reserve]
  split <;> rfl

namespace SharedState

variable {ε : Type*} {env : Sessions ε} {s s' : SharedState} {c c' : SendAsync ε}
variable {order : Order} {l l' : Call ε} {i j : ℕ} {cfg : Config ε} {target : Target ε}
variable {rs : Records ε} {r : Program.Record SharedState (Call ε)}

def items (s : SharedState) (k : Kind) : List Session :=
  (s.sessionPointerPool k).items

-- The vectors have the sessions that were registered when the call took its snapshot.
def Taken (target : Target ε) (rs : Records ε) (s : SharedState) : Prop :=
  ∃ first ∈ rs.head?, ∀ k, (s.items k).Perm (if target.selects k then first.pre.1.sessions k else [])

-- How far a call has got with its snapshot. The vectors are its own until it is through with them.
def Progress (c : SendAsync ε) (rs : Records ε) (s : SharedState) : Prop :=
  match c.pc with
  | .entered                            => rs = []
  | .looping k                          =>
    Taken c.target rs s ∧ (visits rs).map Prod.fst = k.before.flatMap s.items
  | .walking k allocation position last =>
    Taken c.target rs s ∧
    (visits rs).map Prod.fst = k.before.flatMap s.items ++ (s.items k).take position ∧
    allocation = (s.sessionPointerPool k).allocation ∧ last = (s.items k).length ∧ position ≤ last
  | .finishing                          =>
    ∃ first ∈ rs.head?, ((visits rs).map Prod.fst).Perm (registered c.target first.pre.1)
  | .returned                           =>
    ∃ first ∈ rs.head?, ((visits rs).map Prod.fst).Perm (registered c.target first.pre.1)
  | .faulted                            => False

def SendAsync.active (c : SendAsync ε) : Bool :=
  match c.pc with
  | .looping _       => true
  | .walking _ _ _ _ => true
  | _                => false

theorem Progress.congr (h : Progress c rs s)
    (hp : c.active → s'.sessionPointerPool = s.sessionPointerPool) : Progress c rs s' := by
  cases hpc : c.pc
  case looping | walking =>
    have hp := hp (by simp [SendAsync.active, hpc])
    have hi : s'.items = s.items := by
      funext k
      rw [items, items, hp]
    simpa [Progress, Taken, hpc, hp, hi] using h
  all_goals simp only [Progress, hpc] at h ⊢
  all_goals exact h

theorem Taken.registered (h : Taken target rs s) :
    ∃ first ∈ rs.head?, (Kind.all.flatMap s.items).Perm (registered target first.pre.1) := by
  have ⟨first, hf, hp⟩ := h
  exact ⟨first, hf, .flatMap_left _ fun k _ => hp k⟩

theorem Taken.concat (h : Taken target rs s) : Taken target (rs ++ [r]) s := by
  have ⟨first, hf, hp⟩ := h
  exact ⟨first, by simp [List.head?_append, Option.mem_def.mp hf], hp⟩

theorem snapshot_items {k : Kind} :
    (s.snapshot target order).items k = if target.selects k then order k else [] := by
  simp only [items, snapshot, Vector.emplace_back, apply_ite Vector.items, Vector.reserve_items,
    Vector.clear, List.nil_append]

theorem Progress.advance {k : Kind} {allocation position last : ℕ} {w : Session}
    (h : Progress c rs s) (hpc : c.pc = .walking k allocation position last) (hl : position ≠ last)
    (hw : (s.items k)[position]? = some w) (hv : visit r = some (w, s)) (ht : c'.target = c.target)
    (hpc' : c'.pc = .walking k allocation (position + 1) last)
    (hs : s'.sessionPointerPool = s.sessionPointerPool) : Progress c' (rs ++ [r]) s' := by
  refine Progress.congr (s := s) ?_ fun _ => hs
  simp only [Progress, hpc] at h
  obtain ⟨htaken, hvisits, ha, hlast, hle⟩ := h
  simp only [Progress, hpc', ht]
  refine ⟨htaken.concat, ?_, ha, hlast, by omega⟩
  simp [visits_concat, hv, hvisits, List.take_add_one, hw]

-- A session is in the set for its type only, and only once.
structure Sets (env : Sessions ε) (s : SharedState) : Prop where
  nodup : ∀ k, (s.sessions k).Nodup
  kind  : ∀ k, ∀ w ∈ s.sessions k, env.kind w = k

theorem Sets.registered_nodup (h : Sets env s) : (registered target s).Nodup := by
  refine List.nodup_flatMap.mpr ⟨fun k _ => ?_, ?_⟩
  · split
    case isTrue  => exact h.nodup k
    case isFalse => exact List.nodup_nil
  · have hd : Kind.all.Pairwise (· ≠ ·) := by decide
    refine hd.imp fun hne w h₁ h₂ => hne ?_
    have mem {k} (hw : w ∈ if target.selects k then s.sessions k else []) : env.kind w = k := by
      split at hw
      case isTrue  => exact h.kind k w hw
      case isFalse => simp at hw
    exact (mem h₁).symm.trans (mem h₂)

variable [DecidableEq ε]

theorem progress_step (h : Progress c rs s) (e : Effect env s c s' c')
    (hr : r.pre = (s, .sendAsync c)) : Progress c' (rs ++ [r]) s' := by
  cases e
  case snapshot order hpc ho =>
    obtain rfl : rs = [] := by simpa [Progress, hpc] using h
    refine ⟨⟨r, rfl, fun k => ?_⟩, ?_⟩
    · rw [snapshot_items, hr]
      split
      case isTrue  => exact ho k
      case isFalse => exact .refl _
    · simp [visits, visit, hr, SendAsync.reads, hpc, Kind.before]
  case loop hpc =>
    have hv : visit r = none := by simp [visit, hr, SendAsync.reads, hpc]
    simp only [Progress, hpc] at h
    refine ⟨h.left.concat, ?_, rfl, rfl, Nat.zero_le _⟩
    simp [visits_concat, hv, h.right]
  case next k allocation last hpc =>
    have hv : visit r = none := by simp [visit, hr, SendAsync.reads, hpc]
    simp only [Progress, hpc] at h
    obtain ⟨ht, hvisits, _, rfl, _⟩ := h
    cases hk : k.next
    case none =>
      obtain ⟨first, hf, hp⟩ := ht.registered
      refine ⟨first, by simp [Option.mem_def.mp hf], ?_⟩
      rw [Kind.all_of_next_none hk, List.flatMap_append, List.flatMap_singleton] at hp
      simpa [visits_concat, hv, hvisits] using hp
    case some k' =>
      refine ⟨ht.concat, ?_⟩
      rw [Kind.before_next hk, List.flatMap_append, List.flatMap_singleton]
      simp [visits_concat, hv, hvisits]
  case fault hpc hl hf =>
    simp only [Progress, hpc] at h
    obtain ⟨_, _, ha, rfl, hle⟩ := h
    have := List.getElem?_eq_none_iff.mp (hf ha)
    simp only [items] at hle hl
    omega
  case send hpc hl hw _ =>
    exact h.advance hpc hl hw (by simp [visit, hr, SendAsync.reads, hpc, hl, hw]) rfl rfl rfl
  case skip hpc hl hw _ =>
    exact h.advance hpc hl hw (by simp [visit, hr, SendAsync.reads, hpc, hl, hw]) rfl rfl rfl
  case finish hpc =>
    have hv : visit r = none := by simp [visit, hr, SendAsync.reads, hpc]
    simp only [Progress, hpc] at h
    obtain ⟨first, hf, hp⟩ := h
    exact ⟨first, by simp [Option.mem_def.mp hf], by simpa [visits_concat, hv] using hp⟩

def Call.active : Call ε → Bool
  | .sendAsync c => c.active
  | _            => false

-- The next step of the call is its snapshot.
def Call.snapshots : Call ε → Bool
  | .sendAsync c => c.pc = .entered
  | _            => false

theorem step_pools {x : Order} (h : (program env).step x s l = some (s', l'))
    (hl : l.snapshots = false) : s'.sessionPointerPool = s.sessionPointerPool := by
  cases l
  case sendAsync c =>
    have ⟨_, _, e⟩ := effect_of_step h
    cases e
    case snapshot hpc _ _ => simp [Call.snapshots, hpc] at hl
    all_goals rfl
  case join =>
    obtain ⟨_, h⟩ := Option.ite_none_left_eq_some.mp h
    exact (Prod.mk.inj (Option.some.inj h)).left ▸ rfl
  case expire => exact (Prod.mk.inj (Option.some.inj h)).left ▸ rfl
  case leave =>
    obtain ⟨_, h⟩ := Option.ite_none_right_eq_some.mp h
    exact (Prod.mk.inj (Option.some.inj h)).left ▸ rfl
  case done => simp [program, Call.step] at h

-- A call that has become a `sendAsync` has been one before.
theorem sendAsync_of_step {x : Order} (h : (program env).step x s l = some (s', .sendAsync c')) :
    ∃ c, l = .sendAsync c ∧ Effect env s c s' c' := by
  cases l
  case sendAsync c =>
    obtain ⟨c', hc, e⟩ := effect_of_step h
    exact ⟨c, rfl, Call.sendAsync.inj hc ▸ e⟩
  case join =>
    obtain ⟨_, h⟩ := Option.ite_none_left_eq_some.mp h
    simp at h
  case expire => simp [program, Call.step] at h
  case leave =>
    obtain ⟨_, h⟩ := Option.ite_none_right_eq_some.mp h
    simp at h
  case done => simp [program, Call.step] at h

def TakesSnapshot (cfg : Config ε) : Program.Action (Call ε) Order → Prop
  | .enter _ => False
  | .run i _ => cfg.calls[i]?.map Call.snapshots = some true

instance : DecidablePred (TakesSnapshot cfg)
  | .enter _ => inferInstanceAs (Decidable False)
  | .run i _ => inferInstanceAs (Decidable (cfg.calls[i]?.map Call.snapshots = some true))

-- No call takes its snapshot while another one is not through with its own.
def Undisturbed (cfg : Config ε) (a : Program.Action (Call ε) Order) : Prop :=
  TakesSnapshot cfg a → ∀ l ∈ cfg.calls, l.active = false

instance : DecidablePred (Undisturbed cfg) :=
  fun a => inferInstanceAs (Decidable (TakesSnapshot cfg a → ∀ l ∈ cfg.calls, l.active = false))

theorem progress (h : ((system env).restrict Undisturbed).Reachable cfg)
    (hc : cfg.calls[i]? = some (.sendAsync c)) : Progress c (cfg.recordsOf i) cfg.shared := by
  refine Program.invariant_restrict (I := fun cfg => ∀ {i c}, cfg.calls[i]? = some (.sendAsync c) →
    Progress c (cfg.recordsOf i) cfg.shared) ?_ ?_ ?_ |>.holds h hc
  · intro _ _ i c hc
    simp at hc
  · intro cfg l hr ih _ hs j c hc
    obtain hc | ⟨hj, rfl⟩ := Program.Config.enter_calls_get? hc
    · exact ih hc
    · simp only [program, Call.starts, decide_eq_true_eq] at hs
      have := Program.recordsOf_eq_nil_of_length_le hr.of_restrict j hj.ge
      simpa [Progress, hs, Program.Config.recordsOf_enter] using this
  · intro cfg i x l s' l' _ ih hu hl hs j c hc
    obtain ⟨rfl, rfl⟩ | ⟨hne, hc⟩ := Program.Config.after_calls_get? hc
    · obtain ⟨c, rfl, e⟩ := sendAsync_of_step hs
      rw [Program.Config.recordsOf_after_self]
      exact progress_step (ih hl) e rfl
    · rw [Program.Config.recordsOf_after_ne hne]
      refine (ih hc).congr fun ha => step_pools hs ?_
      by_contra hsnap
      have := hu (by simpa [TakesSnapshot, hl] using hsnap) _ (List.mem_of_getElem? hc)
      simp [Call.active, ha] at this

theorem Sets.step {x : Order} (h : Sets env s) (hs : (program env).step x s l = some (s', l')) :
    Sets env s' := by
  cases l
  case sendAsync c =>
    have ⟨_, _, e⟩ := effect_of_step hs
    cases e <;> exact ⟨h.nodup, h.kind⟩
  case join w =>
    obtain ⟨_, hs⟩ := Option.ite_none_left_eq_some.mp hs
    obtain rfl := (Prod.mk.inj (Option.some.inj hs)).left
    refine ⟨fun k => ?_, fun k w' hw => ?_⟩
    · simp only
      split
      case isTrue  => exact (h.nodup k).insert
      case isFalse => exact h.nodup k
    · simp only at hw
      split at hw
      case isTrue hk =>
        obtain rfl | hw := List.mem_insert_iff.mp hw
        · exact hk.symm
        · exact h.kind k w' hw
      case isFalse => exact h.kind k w' hw
  case expire => exact (Prod.mk.inj (Option.some.inj hs)).left ▸ ⟨h.nodup, h.kind⟩
  case leave w =>
    obtain ⟨_, hs⟩ := Option.ite_none_right_eq_some.mp hs
    obtain rfl := (Prod.mk.inj (Option.some.inj hs)).left
    refine ⟨fun k => ?_, fun k w' hw => ?_⟩
    · simp only
      split
      case isTrue  => exact (h.nodup k).erase w
      case isFalse => exact h.nodup k
    · simp only at hw
      split at hw
      case isTrue  => exact h.kind k w' (List.mem_of_mem_erase hw)
      case isFalse => exact h.kind k w' hw
  case done => simp [program, Call.step] at hs

theorem sets (h : (system env).Reachable cfg) :
    Sets env cfg.shared ∧ ∀ r ∈ cfg.history, Sets env r.pre.1 := by
  refine Program.invariant
    (I := fun cfg => Sets env cfg.shared ∧ ∀ r ∈ cfg.history, Sets env r.pre.1) ?_ ?_ ?_ |>.holds h
  · rintro _ rfl
    exact ⟨⟨fun _ => List.nodup_nil, by simp [new]⟩, by simp⟩
  · intro _ _ _ ih _
    exact ih
  · intro cfg i x l s' l' _ ih _ hs
    refine ⟨ih.left.step hs, ?_⟩
    simpa [or_imp, forall_and] using ⟨ih.right, ih.left⟩

-- The effect of a `sendAsync` that has returned. The sessions that it got to are those that were
-- registered when it took its snapshot, each of them once.
structure Delivered (env : Sessions ε) (c : SendAsync ε) (rs : Records ε) : Prop where
  turns         : ∃ first ∈ rs.head?, (registered c.target first.pre.1).Nodup ∧
    ((visits rs).map Prod.fst).Perm (registered c.target first.pre.1)
  posted        : posted rs = ((visits rs).filter (Reaches env c.target)).map (·.1, c.message)
  not_connected : notified rs =
    if SharedState.posted rs = [] then c.message.completionHandler.toList else []

theorem delivered_of_undisturbed (h : ((system env).restrict Undisturbed).Reachable cfg)
    (hc : cfg.calls[i]? = some (.sendAsync c)) :
    c.pc ≠ .faulted ∧ (c.pc = .returned → Delivered env c (cfg.recordsOf i)) := by
  have hp := progress h hc
  have hf := faithful h.of_restrict hc
  refine ⟨fun hpc => by simp [Progress, hpc] at hp, fun hpc => ⟨?_, hf.posted, ?_⟩⟩
  · simp only [Progress, hpc] at hp
    have ⟨first, hfirst, hperm⟩ := hp
    have hm := List.mem_of_mem_filter <| List.mem_of_mem_head? hfirst
    exact ⟨first, hfirst, ((sets h.of_restrict).right first hm).registered_nodup, hperm⟩
  · simpa [hpc] using hf.notified

-- Two plain sessions: the first one is a websocket, and the second one is not.
def plainSessions : Sessions ℕ where
  kind w   := if w = 0 then .ws else .http
  endpoint := id

def hello : Message where
  msgPtr            := 4096
  msgSize           := 5
  completionHandler := some 7
  force_send        := false
  max_queue_size    := 8

def orderOf (ws http : List Session) : Order
  | .ws    => ws
  | .wss   => []
  | .http  => http
  | .https => []

-- The first call is for websockets, and the second one, which comes when it has returned, is for the others.
theorem delivered_of_undisturbed_run :
    ∃ cfg, ((system plainSessions).restrict Undisturbed).Reachable cfg ∧
      cfg.shared.posts = [(0, hello), (1, hello)] ∧
      (∃ c, cfg.calls[2]? = some (.sendAsync c) ∧ c.pc = .returned ∧ Delivered plainSessions c (cfg.recordsOf 2)) ∧
      ∃ c, cfg.calls[3]? = some (.sendAsync c) ∧ c.pc = .returned ∧ Delivered plainSessions c (cfg.recordsOf 3) := by
  have ⟨cfg, hr, hp, h₂, h₃⟩ : ∃ cfg, ((system plainSessions).restrict Undisturbed).Reachable cfg ∧
      cfg.shared.posts = [(0, hello), (1, hello)] ∧
      cfg.calls[2]? = some (.sendAsync {
        target := .broadcast true false, message := hello, sent_to_any := true, pc := .returned }) ∧
      cfg.calls[3]? = some (.sendAsync {
        target := .broadcast false true, message := hello, sent_to_any := true, pc := .returned }) :=
    Program.exec_reachable (s := new) rfl <| show Option.any _ (System.exec _ _ _ ([
      .enter (.join 0), .run 0 (orderOf [] []), .enter (.join 1), .run 1 (orderOf [] []),
      .enter (.sendAsync { target := .broadcast true false, message := hello })] ++
      List.replicate 11 (.run 2 (orderOf [0] [1])) ++
      .enter (.sendAsync { target := .broadcast false true, message := hello }) ::
      List.replicate 11 (.run 3 (orderOf [0] [1])))) by decide +kernel
  exact ⟨cfg, hr, hp, ⟨_, h₂, rfl, (delivered_of_undisturbed hr h₂).right rfl⟩,
    ⟨_, h₃, rfl, (delivered_of_undisturbed hr h₃).right rfl⟩⟩

-- The second call clears the vector that the first one has filled for itself, and fills one that the
-- first one has left empty.
theorem overlap_swaps_sessions : ∃ cfg : Config ℕ, (system plainSessions).Reachable cfg ∧
    cfg.calls[2]? = some (.sendAsync {
      target := .broadcast true false, message := hello, sent_to_any := true, pc := .returned }) ∧
    (cfg.recordsOf 2).head?.map (fun r => registered (.broadcast true false : Target ℕ) r.pre.1) =
      some [0] ∧
    cfg.shared.expired = [] ∧ posted (cfg.recordsOf 2) = [(1, hello)] := by
  rw [← System.restrict_true (S := system plainSessions)]
  exact Program.exec_reachable (s := new) rfl <| show Option.any _ (System.exec _ _ _ ([
    .enter (.join 0), .run 0 (orderOf [] []), .enter (.join 1), .run 1 (orderOf [] []),
    .enter (.sendAsync { target := .broadcast true false, message := hello }),
    .enter (.sendAsync { target := .broadcast false true, message := hello }),
    .run 2 (orderOf [0] [1]), .run 3 (orderOf [0] [1])] ++
    List.replicate 10 (.run 2 (orderOf [0] [1])))) by decide +kernel

end SharedState
end BeastNetworking
