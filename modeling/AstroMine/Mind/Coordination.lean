import AstroMine.Mind.Strategy

/-!
# Coordination in a blackout (`mind/coord/model.py`, `mind/exec/degrade.py`)

Every task keeps the smallest of the agents that claim it. The agents that lose a task are told to
yield, and the strategy drops all their actions, also those for tasks that they keep; the
assignments hold one task for each agent, that of the last of its tasks that is resolved.

Results:
* `mem_yielded_iff`: which agents yield.
* `resolve_perm`: who yields does not depend on the order of the claims.
* `assignments_last`: the assignment of an agent is that of the last of its tasks.
* `coordinated_iff`: when every task keeps exactly its smallest claimant, in any order.
-/

namespace AstroMine.Mind

open AstroMine.Core

/-! ## Claims -/

/-- The agent claims the task. -/
def Claims (intents : List Intent) (agent task : String) : Prop :=
  ∃ intent ∈ intents, intent.agentId = agent ∧ intent.taskId = task

/-- The agent is the smallest that claims the task. -/
def Wins (intents : List Intent) (agent task : String) : Prop :=
  Claims intents agent task ∧ ∀ other, Claims intents other task → agent ≤ other

/-- The agents that claim a task, in the order of their claims. -/
def claimantsOf (intents : List Intent) (task : String) : List String :=
  (intents.filter fun intent => intent.taskId = task).map Intent.agentId

/-- `claimants` of `resolve` (lines 44–46). -/
def claimants (intents : List Intent) : Dict String (List String) :=
  Dict.group (intents.map fun intent => (intent.taskId, intent.agentId))

theorem mem_claimantsOf {intents : List Intent} {agent task : String} :
    agent ∈ claimantsOf intents task ↔ Claims intents agent task := by
  rw [claimantsOf, List.mem_map]
  constructor
  · rintro ⟨intent, hmem, rfl⟩
    obtain ⟨hin, htask⟩ := List.mem_filter.mp hmem
    exact ⟨intent, hin, rfl, of_decide_eq_true htask⟩
  · rintro ⟨intent, hin, rfl, htask⟩
    exact ⟨intent, List.mem_filter.mpr ⟨hin, decide_eq_true htask⟩, rfl⟩

theorem Claims.perm {intents intents' : List Intent} (h : intents'.Perm intents)
    {agent task : String} : Claims intents' agent task ↔ Claims intents agent task := by
  simp only [Claims, h.mem_iff]

theorem Wins.perm {intents intents' : List Intent} (h : intents'.Perm intents)
    {agent task : String} : Wins intents' agent task ↔ Wins intents agent task := by
  simp only [Wins, Claims.perm h]

theorem claimantsOf_perm {intents intents' : List Intent} (h : intents'.Perm intents)
    (task : String) : (claimantsOf intents' task).Perm (claimantsOf intents task) :=
  (h.filter _).map _

theorem mem_keys_claimants {intents : List Intent} {task : String} :
    task ∈ (claimants intents).keys ↔ ∃ agent, Claims intents agent task := by
  rw [claimants, Dict.mem_keys_group]
  constructor
  · rintro ⟨p, hp, rfl⟩
    obtain ⟨intent, hin, rfl⟩ := List.mem_map.mp hp
    exact ⟨intent.agentId, intent, hin, rfl, rfl⟩
  · rintro ⟨agent, intent, hin, -, rfl⟩
    exact ⟨_, List.mem_map_of_mem hin, rfl⟩

/-- The tasks with their claimants. -/
theorem entries_claimants (intents : List Intent) :
    (claimants intents).entries =
      (claimants intents).keys.map fun task => (task, claimantsOf intents task) := by
  rw [Dict.keys, List.map_map]
  refine (List.map_id _).symm.trans (List.map_congr_left fun p hp => ?_)
  have hget : (claimants intents).getD p.1 [] = p.2 := by
    rw [Dict.getD, (Dict.get?_eq_some_iff _ p.1 p.2).mpr hp, Option.getD_some]
  rw [claimants, Dict.getD_group] at hget
  refine Prod.ext rfl ?_
  show p.2 = claimantsOf intents p.1
  rw [← hget, claimantsOf, List.filter_map, List.map_map]
  rfl

theorem keys_claimants_perm {intents intents' : List Intent} (h : intents'.Perm intents) :
    (claimants intents').keys.Perm (claimants intents).keys := by
  refine (List.perm_ext_iff_of_nodup (claimants intents').keys_nodup
    (claimants intents).keys_nodup).mpr fun task => ?_
  show task ∈ (claimants intents').keys ↔ task ∈ (claimants intents).keys
  rw [mem_keys_claimants, mem_keys_claimants]
  simp only [Claims.perm h]

/-! ## The winner of a task -/

/-- The winner of these claimants, if any. -/
def winnerOf (agents : List String) : Option String := (sortOn id agents).head?

theorem winnerOf_eq_some {agents : List String} {agent : String} :
    winnerOf agents = some agent ↔ agent ∈ agents ∧ ∀ other ∈ agents, agent ≤ other := by
  have hsorted := sortOn_pairwise id agents
  rw [winnerOf]
  cases hlist : sortOn id agents with
  | nil =>
    rw [(sortOn_eq_nil id agents).mp hlist]
    simp
  | cons first rest =>
    rw [hlist, List.pairwise_cons] at hsorted
    have hmem : ∀ other, other ∈ agents ↔ other = first ∨ other ∈ rest := fun other => by
      rw [← mem_sortOn id agents, hlist, List.mem_cons]
    rw [List.head?_cons, Option.some.injEq]
    constructor
    · rintro rfl
      refine ⟨(hmem _).mpr (.inl rfl), fun other hother => ?_⟩
      rcases (hmem other).mp hother with rfl | hrest
      · exact le_rfl
      · exact hsorted.1 other hrest
    · rintro ⟨hin, hleast⟩
      refine le_antisymm ?_ (hleast first ((hmem first).mpr (.inl rfl)))
      rcases (hmem agent).mp hin with rfl | hrest
      · exact le_rfl
      · exact hsorted.1 agent hrest

theorem some_eq_winnerOf_iff {intents : List Intent} {agent task : String} :
    some agent = winnerOf (claimantsOf intents task) ↔ Wins intents agent task := by
  rw [eq_comm, winnerOf_eq_some, mem_claimantsOf]
  simp only [mem_claimantsOf, Wins]

theorem winnerOf_perm {agents agents' : List String} (h : agents'.Perm agents) :
    winnerOf agents' = winnerOf agents := by
  rw [winnerOf, winnerOf, sortOn_id_eq_of_perm h]

/-! ## The agents that yield -/

/-- The claimants of a task that lose it. -/
def losers (agents : List String) : List String :=
  agents.filter fun agent => some agent ≠ winnerOf agents

theorem losers_perm {agents agents' : List String} (h : agents'.Perm agents) :
    (losers agents').Perm (losers agents) := by
  rw [losers, losers, winnerOf_perm h]
  exact h.filter _

/-- What the loop over the tasks collects, besides the assignments. -/
theorem foldl_resolveTask (entries : List (String × List String)) (start : Resolution) :
    (entries.foldl resolveTask start).conflictsResolved =
        start.conflictsResolved + entries.countP (fun p => 1 < p.2.length) ∧
      (entries.foldl resolveTask start).yielded =
        start.yielded ++ entries.flatMap fun p => losers p.2 := by
  induction entries generalizing start with
  | nil => exact ⟨rfl, (List.append_nil _).symm⟩
  | cons p rest ih =>
    obtain ⟨hconflicts, hyielded⟩ := ih (resolveTask start p)
    constructor
    · rw [List.foldl_cons, hconflicts, resolveTask, List.countP_cons, Nat.add_assoc,
        Nat.add_comm (List.countP _ rest)]
      simp only [decide_eq_true_eq]
    · rw [List.foldl_cons, hyielded, resolveTask, List.flatMap_cons, List.append_assoc]
      rfl

theorem resolve_conflicts (intents : List Intent) : (resolve intents).conflictsResolved =
    (claimants intents).keys.countP fun task => 1 < (claimantsOf intents task).length := by
  have h := (foldl_resolveTask (claimants intents).entries ⟨.empty, 0, []⟩).1
  rw [entries_claimants, List.countP_map, Nat.zero_add] at h
  rw [← entries_claimants] at h
  exact h

theorem resolve_yielded (intents : List Intent) : (resolve intents).yielded =
    sortOn id ((claimants intents).keys.flatMap fun task =>
      losers (claimantsOf intents task)) := by
  have h := (foldl_resolveTask (claimants intents).entries ⟨.empty, 0, []⟩).2
  rw [entries_claimants, List.flatMap_map, List.nil_append] at h
  rw [← h, ← entries_claimants]
  rfl

/-- An agent yields when it loses one of its tasks. -/
theorem mem_yielded_iff {intents : List Intent} {agent : String} :
    agent ∈ (resolve intents).yielded ↔
      ∃ task, Claims intents agent task ∧ ¬ Wins intents agent task := by
  rw [resolve_yielded, mem_sortOn, List.mem_flatMap]
  constructor
  · rintro ⟨task, -, hmem⟩
    obtain ⟨hin, hloses⟩ := List.mem_filter.mp hmem
    refine ⟨task, mem_claimantsOf.1 hin, ?_⟩
    rw [← some_eq_winnerOf_iff]
    exact of_decide_eq_true hloses
  · rintro ⟨task, hclaims, hloses⟩
    refine ⟨task, mem_keys_claimants.2 ⟨agent, hclaims⟩, List.mem_filter.mpr ⟨?_, ?_⟩⟩
    · exact mem_claimantsOf.2 hclaims
    · rw [← some_eq_winnerOf_iff] at hloses
      exact decide_eq_true hloses

/-- Who yields, and how many conflicts there are, does not depend on the order of the claims. -/
theorem resolve_perm {intents intents' : List Intent} (h : intents'.Perm intents) :
    (resolve intents').yielded = (resolve intents).yielded ∧
      (resolve intents').conflictsResolved = (resolve intents).conflictsResolved := by
  constructor
  · rw [resolve_yielded, resolve_yielded]
    refine sortOn_id_eq_of_perm ?_
    exact (keys_claimants_perm h).flatMap fun task _ => losers_perm (claimantsOf_perm h task)
  · rw [resolve_conflicts, resolve_conflicts]
    simp only [(claimantsOf_perm h _).length_eq]
    exact (keys_claimants_perm h).countP_eq _

/-! ## The assignments -/

/-- What the claimant of a task is assigned when it is resolved. -/
def assignmentOf (task : String × List String) (agent : String) : Option String :=
  if some agent = winnerOf task.2 then some task.1 else none

theorem get?_foldl_assign {ν : Type} (f : String → ν) (agents : List String) (d : Dict String ν)
    (agent : String) :
    (agents.foldl (fun d agentId => d.set agentId (f agentId)) d).get? agent =
      if agent ∈ agents then some (f agent) else d.get? agent := by
  induction agents generalizing d with
  | nil => rfl
  | cons first rest ih =>
    rw [List.foldl_cons, ih, Dict.get?_set]
    by_cases hrest : agent ∈ rest
    · rw [if_pos hrest, if_pos (List.mem_cons_of_mem _ hrest)]
    · rw [if_neg hrest]
      by_cases hfirst : agent = first
      · subst hfirst
        rw [if_pos rfl, if_pos List.mem_cons_self]
      · rw [if_neg hfirst, if_neg fun hmem => (List.mem_cons.mp hmem).elim hfirst hrest]

/-- The assignment of an agent is that of the last task it claims. -/
theorem foldl_assignments (entries : List (String × List String)) (start : Resolution)
    (agent : String) :
    (entries.foldl resolveTask start).assignments.get? agent =
      (((entries.filter fun p => agent ∈ p.2).getLast?).map fun p => assignmentOf p agent).or
        (start.assignments.get? agent) := by
  induction entries using List.reverseRecOn with
  | nil => rfl
  | append_singleton entries p ih =>
    have hstep : (resolveTask (entries.foldl resolveTask start) p).assignments.get? agent =
        if agent ∈ p.2 then some (assignmentOf p agent)
        else (entries.foldl resolveTask start).assignments.get? agent :=
      get?_foldl_assign (assignmentOf p) p.2 _ agent
    rw [List.foldl_append, List.foldl_cons, List.foldl_nil, hstep, List.filter_append]
    by_cases hmem : agent ∈ p.2
    · simp only [hmem, List.filter_cons, List.filter_nil, decide_true, if_true,
        List.getLast?_concat, Option.map_some, Option.some_or]
    · simp only [hmem, List.filter_cons, List.filter_nil, decide_false, Bool.false_eq_true,
        if_false, List.append_nil, ih]

/-- The tasks of an agent, in the order in which they are resolved. -/
def tasksOf (intents : List Intent) (agent : String) : List String :=
  (claimants intents).keys.filter fun task => agent ∈ claimantsOf intents task

theorem mem_tasksOf {intents : List Intent} {agent task : String} :
    task ∈ tasksOf intents agent ↔ Claims intents agent task := by
  rw [tasksOf, List.mem_filter, decide_eq_true_eq, mem_claimantsOf]
  exact and_iff_right_of_imp fun h => mem_keys_claimants.2 ⟨agent, h⟩

/-- The assignment of an agent is that of the last of its tasks. -/
theorem assignments_last (intents : List Intent) (agent : String) :
    (resolve intents).assignments.get? agent = (tasksOf intents agent).getLast?.map fun task =>
      assignmentOf (task, claimantsOf intents task) agent := by
  have h := foldl_assignments (claimants intents).entries ⟨.empty, 0, []⟩ agent
  rw [Dict.get?_empty, Option.or_none, entries_claimants, List.filter_map, List.getLast?_map,
    Option.map_map, ← entries_claimants] at h
  exact h

theorem assignmentOf_eq_some_iff {intents : List Intent} {agent task : String} :
    assignmentOf (task, claimantsOf intents task) agent = some task ↔ Wins intents agent task := by
  rw [assignmentOf, ← some_eq_winnerOf_iff]
  by_cases h : some agent = winnerOf (claimantsOf intents task)
  · rw [if_pos h]
    exact iff_of_true rfl h
  · rw [if_neg h]
    exact iff_of_false (fun h' => by cases h') h

/-- The agents that win a task claim no other one. -/
def Focused (intents : List Intent) : Prop :=
  ∀ agent task, Wins intents agent task → ∀ task', Claims intents agent task' → task' = task

theorem Focused.perm {intents intents' : List Intent} (h : Focused intents)
    (hperm : intents'.Perm intents) : Focused intents' := by
  intro agent task hwins task' hclaims
  exact h agent task ((Wins.perm hperm).1 hwins) task' ((Claims.perm hperm).1 hclaims)

theorem assignments_of_forall_not {intents : List Intent} {agent : String}
    (h : ∀ task, ¬ Claims intents agent task) :
    (resolve intents).assignments.get? agent = none := by
  have hnil : tasksOf intents agent = [] :=
    List.eq_nil_iff_forall_not_mem.mpr fun task hmem => h task (mem_tasksOf.1 hmem)
  rw [assignments_last, hnil]
  rfl

/-- An agent that claims a task is assigned one of its tasks, or none where it loses that one. -/
theorem exists_assignment {intents : List Intent} {agent task : String}
    (h : Claims intents agent task) :
    ∃ last, Claims intents agent last ∧ (tasksOf intents agent).getLast? = some last ∧
      (resolve intents).assignments.get? agent =
        some (assignmentOf (last, claimantsOf intents last) agent) := by
  have hne : tasksOf intents agent ≠ [] := List.ne_nil_of_mem (mem_tasksOf.2 h)
  have hlast := List.getLast?_eq_some_getLast hne
  refine ⟨_, mem_tasksOf.1 (List.getLast_mem hne), hlast, ?_⟩
  rw [assignments_last, hlast]
  rfl

/-- The winner of a task is assigned it, when winners are focused. -/
theorem Focused.assignments_of_wins {intents : List Intent} (h : Focused intents)
    {agent task : String} (hwins : Wins intents agent task) :
    (resolve intents).assignments.get? agent = some (some task) := by
  obtain ⟨last, hclaims, -, hget⟩ := exists_assignment hwins.1
  rw [h agent task hwins last hclaims] at hget
  rw [hget, assignmentOf_eq_some_iff.2 hwins]

/-- An agent that wins nothing is assigned nothing. -/
theorem assignments_of_loses {intents : List Intent} {agent task : String}
    (hclaims : Claims intents agent task) (hloses : ∀ task, ¬ Wins intents agent task) :
    (resolve intents).assignments.get? agent = some none := by
  obtain ⟨last, -, -, hget⟩ := exists_assignment hclaims
  rw [hget, assignmentOf, if_neg fun hwins => hloses last (some_eq_winnerOf_iff.1 hwins)]

/-- The assignments do not depend on the order of the claims, when winners are focused. -/
theorem Focused.assignments_perm {intents intents' : List Intent} (h : Focused intents)
    (hperm : intents'.Perm intents) (agent : String) :
    (resolve intents').assignments.get? agent = (resolve intents).assignments.get? agent := by
  by_cases hclaims : ∃ task, Claims intents agent task
  · obtain ⟨task, hclaims⟩ := hclaims
    by_cases hwins : ∃ won, Wins intents agent won
    · obtain ⟨won, hwins⟩ := hwins
      rw [h.assignments_of_wins hwins,
        (h.perm hperm).assignments_of_wins ((Wins.perm hperm).2 hwins)]
    · have hloses : ∀ won, ¬ Wins intents agent won := fun won hwon => hwins ⟨won, hwon⟩
      rw [assignments_of_loses hclaims hloses, assignments_of_loses ((Claims.perm hperm).2 hclaims)
        fun won hwon => hloses won ((Wins.perm hperm).1 hwon)]
  · have hnone : ∀ task, ¬ Claims intents agent task := fun task htask => hclaims ⟨task, htask⟩
    rw [assignments_of_forall_not hnone,
      assignments_of_forall_not fun task htask => hnone task ((Claims.perm hperm).1 htask)]

/-! ## Claims resolved last and first -/

/-- The claims of one task. -/
def claimsOf (intents : List Intent) (task : String) : List Intent :=
  intents.filter fun intent => intent.taskId = task

/-- The claims of the other tasks. -/
def otherClaims (intents : List Intent) (task : String) : List Intent :=
  intents.filter fun intent => ¬ intent.taskId = task

theorem claimsOf_append_perm (intents : List Intent) (task : String) :
    (claimsOf intents task ++ otherClaims intents task).Perm intents := by
  have hperm := List.filter_append_perm (fun intent : Intent => decide (intent.taskId = task)) intents
  simp only [← decide_not] at hperm
  exact hperm

/-- A task whose claims come last is resolved last. -/
theorem tasksOf_last {intents : List Intent} {agent task : String}
    (h : Claims intents agent task) :
    (tasksOf (otherClaims intents task ++ claimsOf intents task) agent).getLast? = some task := by
  have hperm : (otherClaims intents task ++ claimsOf intents task).Perm intents :=
    List.perm_append_comm.trans (claimsOf_append_perm intents task)
  have hkeys : (claimants (otherClaims intents task ++ claimsOf intents task)).keys =
      (claimants (otherClaims intents task)).keys ++ [task] := by
    rw [claimants, List.map_append]
    refine Dict.keys_group_append ?_ ?_ ?_
    · intro p hp
      obtain ⟨intent, hin, rfl⟩ := List.mem_map.mp hp
      exact of_decide_eq_true (List.mem_filter.mp hin).2
    · intro p hp
      obtain ⟨intent, hin, rfl⟩ := List.mem_map.mp hp
      exact of_decide_eq_true (List.mem_filter.mp hin).2
    · obtain ⟨intent, hin, -, htask⟩ := h
      exact List.ne_nil_of_mem (List.mem_map_of_mem
        (List.mem_filter.mpr ⟨hin, decide_eq_true htask⟩))
  have hmem : agent ∈ claimantsOf (otherClaims intents task ++ claimsOf intents task) task :=
    mem_claimantsOf.2 ((Claims.perm hperm).2 h)
  rw [tasksOf, hkeys, List.filter_append]
  simp only [hmem, List.filter_cons, List.filter_nil, decide_true, if_true, List.getLast?_concat]

/-- A task whose claims come first is not resolved last, if the agent claims another one. -/
theorem tasksOf_first {intents : List Intent} {agent task task' : String}
    (h : Claims intents agent task) (h' : Claims intents agent task') (hne : task' ≠ task) :
    (tasksOf (claimsOf intents task ++ otherClaims intents task) agent).getLast? ≠ some task := by
  have hperm := claimsOf_append_perm intents task
  obtain ⟨rest, hkeys⟩ : ∃ rest,
      (claimants (claimsOf intents task ++ otherClaims intents task)).keys = task :: rest := by
    obtain ⟨intent, hin, -, rfl⟩ := id h
    cases hclaims : claimsOf intents intent.taskId with
    | nil =>
      have hmem : intent ∈ claimsOf intents intent.taskId :=
        List.mem_filter.mpr ⟨hin, decide_eq_true rfl⟩
      rw [hclaims] at hmem
      cases hmem
    | cons first others =>
      have hfirst : first ∈ claimsOf intents intent.taskId := by
        rw [hclaims]
        exact List.mem_cons_self
      rw [← of_decide_eq_true (List.mem_filter.mp hfirst).2]
      exact Dict.keys_group_cons _ _
  have hnodup : (claimants (claimsOf intents task ++ otherClaims intents task)).keys.Nodup :=
    (claimants (claimsOf intents task ++ otherClaims intents task)).keys_nodup
  have hmem' := mem_tasksOf.2 ((Claims.perm hperm).2 h')
  rw [hkeys, List.nodup_cons] at hnodup
  rw [tasksOf, hkeys, List.filter_cons] at hmem' ⊢
  rw [if_pos (decide_eq_true (mem_claimantsOf.2 ((Claims.perm hperm).2 h)))] at hmem' ⊢
  have hrest := (List.mem_cons.mp hmem').resolve_left hne
  rw [List.getLast?_cons_of_ne_nil (List.ne_nil_of_mem hrest)]
  intro hlast
  exact hnodup.1 (List.mem_filter.mp (List.mem_of_getLast? hlast)).1

/-- The order of the claims changes the assignment of a winner that is not focused. -/
theorem focused_of_assignments_perm {intents : List Intent}
    (h : ∀ intents', intents'.Perm intents → ∀ agent,
      (resolve intents').assignments.get? agent = (resolve intents).assignments.get? agent) :
    Focused intents := by
  intro agent task hwins task' hclaims
  by_contra hne
  have hfirst := claimsOf_append_perm intents task
  have hlast : (otherClaims intents task ++ claimsOf intents task).Perm intents :=
    List.perm_append_comm.trans hfirst
  have hsame := (h _ hfirst agent).trans (h _ hlast agent).symm
  obtain ⟨last, -, htasks, hget⟩ := exists_assignment ((Claims.perm hfirst).2 hwins.1)
  have hwon : (resolve (otherClaims intents task ++ claimsOf intents task)).assignments.get? agent =
      some (some task) := by
    rw [assignments_last, tasksOf_last hwins.1, Option.map_some,
      assignmentOf_eq_some_iff.2 ((Wins.perm hlast).2 hwins)]
  rw [hget, hwon, Option.some.injEq, assignmentOf] at hsame
  split_ifs at hsame
  obtain rfl : last = task := Option.some.inj hsame
  exact tasksOf_first hwins.1 hclaims hne htasks

/-! ## The filtered batch -/

section Batch

variable {K T σ : Type}

/-- The claims that the strategy gossips for its mission tier (`degrade.py`, lines 160–167). -/
def intentsOf (region : Action K → Option String) (cached : ActionBatch K) : List Intent :=
  cached.filterMap fun action =>
    (region action).map fun taskId => { agentId := action.agentId, taskId }

/-- In a blackout the agents that yield act no more. -/
theorem mem_coordinate {region : Action K → Option String} {pass : Pass K T σ}
    {cached : ActionBatch K} (hcached : (pass.strategy.tiers .mission).cached = some cached)
    {action : Action K} :
    action ∈ (coordinate region pass).upstream ↔
      action ∈ pass.upstream ∧
        action.agentId ∉ (resolve (intentsOf region cached)).yielded := by
  rw [coordinate, hcached]
  show action ∈ (if (resolve (intentsOf region cached)).yielded = [] then pass else _).upstream ↔ _
  by_cases hnil : (resolve (intentsOf region cached)).yielded = []
  · rw [if_pos hnil, hnil]
    exact (and_iff_left List.not_mem_nil).symm
  · rw [if_neg hnil]
    show action ∈ pass.upstream.filter _ ↔ _
    rw [List.mem_filter, decide_eq_true_eq]
    rfl

variable (K T σ) in
/-- Every task keeps exactly the smallest of its claimants, whatever the order of the claims. -/
structure Coordinated (intents : List Intent) : Prop where
  /-- Of the claimants of a task that act, the strategy keeps the smallest one. -/
  kept : ∀ (region : Action K → Option String) (pass : Pass K T σ) (cached : ActionBatch K),
    (pass.strategy.tiers .mission).cached = some cached → intentsOf region cached = intents →
      (∀ intent ∈ intents, ∃ action ∈ pass.upstream, action.agentId = intent.agentId) →
        ∀ task agent, Claims intents agent task →
          ((∃ action ∈ (coordinate region pass).upstream, action.agentId = agent) ↔
            ∀ other, Claims intents other task → agent ≤ other)
  /-- The resolution does not depend on the order. -/
  order : ∀ intents', intents'.Perm intents →
    (resolve intents').yielded = (resolve intents).yielded ∧
      (resolve intents').conflictsResolved = (resolve intents).conflictsResolved ∧
      ∀ agent, (resolve intents').assignments.get? agent = (resolve intents).assignments.get? agent

/-- A focused winner does not yield, so the strategy keeps it. -/
theorem Focused.kept {intents : List Intent} (h : Focused intents)
    {region : Action K → Option String} {pass : Pass K T σ} {cached : ActionBatch K}
    (hcached : (pass.strategy.tiers .mission).cached = some cached)
    (hintents : intentsOf region cached = intents)
    (hacts : ∀ intent ∈ intents, ∃ action ∈ pass.upstream, action.agentId = intent.agentId)
    {agent task : String} (hclaims : Claims intents agent task) :
    (∃ action ∈ (coordinate region pass).upstream, action.agentId = agent) ↔
      ∀ other, Claims intents other task → agent ≤ other := by
  simp only [mem_coordinate hcached, hintents, mem_yielded_iff]
  constructor
  · rintro ⟨action, ⟨-, hstays⟩, rfl⟩
    by_contra hloses
    exact hstays ⟨task, hclaims, fun hwins => hloses hwins.2⟩
  · intro hleast
    obtain ⟨intent, hin, rfl, -⟩ := id hclaims
    obtain ⟨action, haction, hagent⟩ := hacts intent hin
    refine ⟨action, ⟨haction, ?_⟩, hagent⟩
    rw [hagent]
    rintro ⟨other, hother, hloses⟩
    rw [h _ task ⟨hclaims, hleast⟩ other hother] at hloses
    exact hloses ⟨hclaims, hleast⟩

/-- **Main theorem.** Every task keeps exactly its smallest claimant, whatever the order in which
the claims are gossiped, exactly if the agents that win a task claim no other one. -/
theorem coordinated_iff (intents : List Intent) : Coordinated K T σ intents ↔ Focused intents := by
  constructor
  · exact fun h => focused_of_assignments_perm fun intents' hperm => (h.order intents' hperm).2.2
  · intro h
    refine ⟨fun region pass cached hcached hintents hacts task agent hclaims =>
      h.kept hcached hintents hacts hclaims, fun intents' hperm => ?_⟩
    obtain ⟨hyielded, hconflicts⟩ := resolve_perm hperm
    exact ⟨hyielded, hconflicts, h.assignments_perm hperm⟩

end Batch

/-! ## An orphaned task -/

/-- Claims of the regions `a` and `b`, told apart by the kind of the action. -/
def kindRegion (action : Action ℚ) : Option String :=
  if action.kind = .task then some "a" else some "b"

/-- The second rover claims both regions, one against the first rover and one against the third. -/
def chainedClaims : ActionBatch ℚ :=
  [{ agentId := "r0", kind := .task }, { agentId := "r1", kind := .task },
    { agentId := "r1", kind := .mode }, { agentId := "r2", kind := .mode }]

/-- The mission tier holds these claims, and every rover acts. -/
def chainedPass : Pass ℚ ℤ Unit where
  strategy := { tiers := fun _ => { cached := some chainedClaims } }
  policies := ()
  upstream := chainedClaims
  records := []

/-- **Counterexample.** The second rover loses one region and keeps the other, the third loses
that one: both are dropped, and nobody acts for it. -/
theorem chainedClaims_orphaned :
    (coordinate kindRegion chainedPass).upstream.map Action.agentId = ["r0"] ∧
      ¬ Coordinated ℚ ℤ Unit (intentsOf kindRegion chainedClaims) := by
  have hkept : (coordinate kindRegion chainedPass).upstream.map Action.agentId = ["r0"] := by
    decide +kernel
  refine ⟨hkept, fun h => ?_⟩
  have hacts : ∀ intent ∈ intentsOf kindRegion chainedClaims,
      ∃ action ∈ chainedPass.upstream, action.agentId = intent.agentId := by
    intro intent hin
    obtain ⟨action, haction, hregion⟩ := List.mem_filterMap.mp hin
    obtain ⟨taskId, -, rfl⟩ := Option.map_eq_some_iff.mp hregion
    exact ⟨action, haction, rfl⟩
  have hclaims : Claims (intentsOf kindRegion chainedClaims) "r1" "b" :=
    ⟨⟨"r1", "b"⟩, List.mem_filterMap.mpr ⟨{ agentId := "r1", kind := .mode }, by decide, rfl⟩,
      rfl, rfl⟩
  obtain ⟨action, haction, hagent⟩ :=
    (h.kept kindRegion chainedPass chainedClaims rfl rfl hacts "b" "r1" hclaims).2 (by
      rintro other ⟨intent, hin, rfl, htask⟩
      revert intent
      decide)
  have hmem := List.mem_map_of_mem (f := Action.agentId) haction
  rw [hkept, hagent] at hmem
  exact absurd hmem (by decide)

end AstroMine.Mind
