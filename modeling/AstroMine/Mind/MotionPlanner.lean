import AstroMine.Lib.ArgMin
import AstroMine.Lib.Instances
import AstroMine.Lib.ParentTree
import AstroMine.Lib.RealVec
import Mathlib.Tactic.LinearCombination

/-!
# The reference motion planner (`mind/tamp/motion/reference.py`)

A rapidly-exploring random tree around circular keep-outs in the ground plane. The random generator
is any state machine that draws numbers, so every sequence of draws is covered. Exact arithmetic.

A division by zero and a walk that does not end are `none`.

Results:
* `segmentClearOf_iff`: the test at one point of a segment speaks for all of its points.
* `steer_spec`: a step is no longer than `step_m`.
* `grow_spec`: what the loop returns.
* `plan_sound`: the planner returns the goal alone or a path it has checked.
-/

namespace AstroMine.Mind.Motion

open scoped Numerals

/-! ## The planner -/

section Model

variable {K : Type}

/-- `Point` (line 22). -/
abbrev Point (K : Type) := K × K

/-- `Obstacle` (lines 25–31). -/
structure Obstacle (K : Type) where
  center : Point K
  radius : K

/-- `ReferenceMotionPlanner` (lines 34–42). -/
structure ReferenceMotionPlanner (K : Type) where
  stepM : K
  maxSamples : ℤ
  boundM : K

variable [Field K] [LinearOrder K] [HasSqrt K]

/-- `_dist` (lines 103–104). -/
def dist (a b : Point K) : K :=
  HasSqrt.sqrt ((a.1 - b.1) * (a.1 - b.1) + (a.2 - b.2) * (a.2 - b.2))

/-- `_segment_clear_of` (lines 107–116). -/
def segmentClearOf (a b : Point K) (obstacle : Obstacle K) : Bool :=
  let (cx, cy) := obstacle.center
  let (dx, dy) := (b.1 - a.1, b.2 - a.2)
  let lengthSq := dx * dx + dy * dy
  if lengthSq = 0 then decide (obstacle.radius ≤ dist a obstacle.center)
  else
    let t := max 0 (min 1 (((cx - a.1) * dx + (cy - a.2) * dy) / lengthSq))
    let closest := (a.1 + t * dx, a.2 + t * dy)
    decide (obstacle.radius ≤ dist closest obstacle.center)

/-- `_segment_free` (lines 89–90). -/
def segmentFree (a b : Point K) (obstacles : List (Obstacle K)) : Bool :=
  obstacles.all fun o => segmentClearOf a b o

/-- `_path` (lines 92–100). -/
def path (nodes : List (Point K)) (parents : List ℤ) : Option (List (Point K)) :=
  (walkBack nodes parents nodes.length (nodes.length - 1) []).map fun chain =>
    chain.reverse.drop 1

namespace ReferenceMotionPlanner

variable (planner : ReferenceMotionPlanner K)

/-- `_steer` (lines 79–87). -/
def steer (origin toward : Point K) : Option (Point K) :=
  let distance := dist origin toward
  if distance ≤ planner.stepM then some toward
  else if distance = 0 then none
  else
    let scale := planner.stepM / distance
    some (origin.1 + (toward.1 - origin.1) * scale, origin.2 + (toward.2 - origin.2) * scale)

variable {G : Type} (random : G → K × G)

/-- `rng.uniform`. -/
def uniform (a b : K) (rng : G) : K × G :=
  let (u, rng) := random rng
  (a + (b - a) * u, rng)

/-- `_sample` (lines 70–77). -/
def sample (goal : Point K) (rng : G) : Point K × G :=
  let (u, rng) := random rng
  if u < 1 / 10 then (goal, rng)
  else
    let (x, rng) := uniform random (-planner.boundM) planner.boundM rng
    let (y, rng) := uniform random (-planner.boundM) planner.boundM rng
    ((x, y), rng)

/-- The loop of `plan` (lines 56–68), with the iterations left. -/
def grow (goal : Point K) (obstacles : List (Obstacle K)) :
    ℕ → G → List (Point K) → List ℤ → Option (List (Point K))
  | 0, _, _, _ => some [goal]
  | left + 1, rng, nodes, parents =>
    let (sample, rng) := planner.sample random goal rng
    let nearest := argmin (fun node => dist node sample) nodes
    match nodes[nearest]? with
    | none => none
    | some origin =>
      match planner.steer origin sample with
      | none => none
      | some new =>
        if segmentFree origin new obstacles = false then grow goal obstacles left rng nodes parents
        else
          let parents := parents ++ [(nearest : ℤ)]
          let nodes := nodes ++ [new]
          if segmentFree new goal obstacles then
            path (nodes ++ [goal]) (parents ++ [(nodes.length : ℤ) - 1])
          else grow goal obstacles left rng nodes parents

/-- `plan` (lines 44–68). -/
def plan (start goal : Point K) (obstacles : List (Obstacle K)) (rng : G) :
    Option (List (Point K)) :=
  if segmentFree start goal obstacles then some [goal]
  else planner.grow random goal obstacles planner.maxSamples.toNat rng [start] [-1]

end ReferenceMotionPlanner

end Model

/-! ## Segments -/

/-- The point of a segment at a fraction of its length. -/
def pointAt (a b : Point ℝ) (t : ℝ) : Point ℝ := (a.1 + t * (b.1 - a.1), a.2 + t * (b.2 - a.2))

/-- The segment stays at distance at least the radius from every center, at all of its points. -/
def Clear (obstacles : List (Obstacle ℝ)) (a b : Point ℝ) : Prop :=
  ∀ o ∈ obstacles, ∀ t ∈ Set.Icc (0 : ℝ) 1, o.radius ≤ dist (pointAt a b t) o.center

/-- The square of a distance. -/
def distSq (a b : Point ℝ) : ℝ := (a.1 - b.1) * (a.1 - b.1) + (a.2 - b.2) * (a.2 - b.2)

theorem dist_eq (a b : Point ℝ) : dist a b = √(distSq a b) := rfl

theorem distSq_nonneg (a b : Point ℝ) : 0 ≤ distSq a b :=
  add_nonneg (mul_self_nonneg _) (mul_self_nonneg _)

theorem dist_nonneg (a b : Point ℝ) : 0 ≤ dist a b := Real.sqrt_nonneg _

theorem dist_mul_self (a b : Point ℝ) : dist a b * dist a b = distSq a b :=
  Real.mul_self_sqrt (distSq_nonneg a b)

/-- No number of an interval is nearer to `s` than `s` clamped to it. -/
theorem clamp_nearest (s : ℝ) {t : ℝ} (ht : t ∈ Set.Icc (0 : ℝ) 1) :
    (max 0 (min 1 s) - s) ^ 2 ≤ (t - s) ^ 2 := by
  obtain ⟨h0, h1⟩ := ht
  rw [sq_le_sq]
  rcases le_total s 0 with hs | hs
  · rw [max_eq_left ((min_le_right 1 s).trans hs), abs_of_nonneg (by linarith),
      abs_of_nonneg (by linarith)]
    linarith
  · rcases le_total s 1 with hs1 | hs1
    · rw [min_eq_right hs1, max_eq_right hs, sub_self, abs_zero]
      exact abs_nonneg _
    · rw [min_eq_left hs1, max_eq_right zero_le_one, abs_of_nonpos (by linarith),
        abs_of_nonpos (by linarith)]
      linarith

/-- Along a segment the square of the distance is a parabola in the fraction, lowest at `s`. -/
theorem distSq_pointAt {a b c : Point ℝ} {s : ℝ}
    (hs : s * distSq b a = (c.1 - a.1) * (b.1 - a.1) + (c.2 - a.2) * (b.2 - a.2)) (t : ℝ) :
    distSq (pointAt a b t) c = distSq (pointAt a b s) c + distSq b a * (t - s) ^ 2 := by
  simp only [distSq, pointAt] at hs ⊢
  linear_combination (2 * t - 2 * s) * hs

/-- **Spec.** The test at one point of a segment speaks for all of its points. -/
theorem segmentClearOf_iff {a b : Point ℝ} {o : Obstacle ℝ} : segmentClearOf a b o = true ↔
    ∀ t ∈ Set.Icc (0 : ℝ) 1, o.radius ≤ dist (pointAt a b t) o.center := by
  have hlength : (b.1 - a.1) * (b.1 - a.1) + (b.2 - a.2) * (b.2 - a.2) = distSq b a := rfl
  simp only [segmentClearOf, hlength]
  split_ifs with hzero
  · have hpoint (t : ℝ) : pointAt a b t = a := by
      obtain ⟨hx, hy⟩ := (add_eq_zero_iff_of_nonneg (mul_self_nonneg _) (mul_self_nonneg _)).mp hzero
      rw [pointAt, mul_self_eq_zero.mp hx, mul_self_eq_zero.mp hy, mul_zero, add_zero, add_zero]
    rw [decide_eq_true_eq]
    refine ⟨fun h t _ => (hpoint t).symm ▸ h, fun h => ?_⟩
    exact hpoint 0 ▸ h 0 ⟨le_rfl, zero_le_one⟩
  · rw [decide_eq_true_eq]
    -- the test is made at the clamped foot of the perpendicular
    obtain ⟨s, hs⟩ : ∃ s, s = ((o.center.1 - a.1) * (b.1 - a.1) +
        (o.center.2 - a.2) * (b.2 - a.2)) / distSq b a := ⟨_, rfl⟩
    rw [← hs]
    rw [eq_div_iff hzero] at hs
    have hclamp : max 0 (min 1 s) ∈ Set.Icc (0 : ℝ) 1 :=
      ⟨le_max_left _ _, max_le zero_le_one (min_le_left _ _)⟩
    refine ⟨fun h t ht => h.trans (Real.sqrt_le_sqrt ?_), fun h => h _ hclamp⟩
    calc
      distSq (pointAt a b (max 0 (min 1 s))) o.center
          = distSq (pointAt a b s) o.center + distSq b a * (max 0 (min 1 s) - s) ^ 2 :=
            distSq_pointAt hs _
      _ ≤ distSq (pointAt a b s) o.center + distSq b a * (t - s) ^ 2 :=
            add_le_add_right (mul_le_mul_of_nonneg_left (clamp_nearest s ht) (distSq_nonneg b a)) _
      _ = distSq (pointAt a b t) o.center := (distSq_pointAt hs t).symm

theorem segmentFree_iff {a b : Point ℝ} {obstacles : List (Obstacle ℝ)} :
    segmentFree a b obstacles = true ↔ Clear obstacles a b := by
  rw [segmentFree, List.all_eq_true]
  exact forall₂_congr fun _ _ => segmentClearOf_iff

/-! ## Steps -/

/-- **Spec.** A step is made, and it is no longer than `step_m`. -/
theorem steer_spec {planner : ReferenceMotionPlanner ℝ} (hstep : 0 ≤ planner.stepM)
    (origin toward : Point ℝ) :
    ∃ new, planner.steer origin toward = some new ∧ dist origin new ≤ planner.stepM := by
  rw [ReferenceMotionPlanner.steer]
  by_cases hnear : dist origin toward ≤ planner.stepM
  · exact ⟨toward, if_pos hnear, hnear⟩
  have hpos : 0 < dist origin toward := hstep.trans_lt (not_le.mp hnear)
  refine ⟨_, (if_neg hnear).trans (if_neg hpos.ne'), le_of_eq ?_⟩
  have hsq : distSq origin (origin.1 + (toward.1 - origin.1) * (planner.stepM / dist origin toward),
      origin.2 + (toward.2 - origin.2) * (planner.stepM / dist origin toward)) =
        planner.stepM ^ 2 := by
    calc
      _ = distSq origin toward * (planner.stepM / dist origin toward) ^ 2 := by
        simp only [distSq]
        ring
      _ = _ := by
        rw [← dist_mul_self, div_pow]
        field_simp
  rw [dist_eq, hsq, Real.sqrt_sq hstep]

/-! ## Paths -/

/-- A segment of the tree: checked, and no longer than a step. -/
def Grown (planner : ReferenceMotionPlanner ℝ) (obstacles : List (Obstacle ℝ)) (a b : Point ℝ) :
    Prop :=
  Clear obstacles a b ∧ dist a b ≤ planner.stepM

/-- The waypoints end at the goal, every segment from the start on is clear, and every segment but
the last is no longer than a step. -/
def Checked (planner : ReferenceMotionPlanner ℝ) (obstacles : List (Obstacle ℝ))
    (start goal : Point ℝ) (waypoints : List (Point ℝ)) : Prop :=
  ∃ before, waypoints = before ++ [goal] ∧
    (start :: waypoints).IsChain (Clear obstacles) ∧
    (start :: before).IsChain fun a b => dist a b ≤ planner.stepM

/-- **Spec.** The walk back from a goal that the last node of the tree sees. -/
theorem path_spec {planner : ReferenceMotionPlanner ℝ} {obstacles : List (Obstacle ℝ)}
    {start goal new : Point ℝ} {nodes : List (Point ℝ)} {parents : List ℤ}
    (htree : Rooted (Grown planner obstacles) start nodes parents nodes.length)
    (hlength : parents.length = nodes.length) (hnew : nodes.getLast? = some new)
    (hgoal : Clear obstacles new goal) :
    ∃ waypoints, path (nodes ++ [goal]) (parents ++ [(nodes.length : ℤ) - 1]) = some waypoints ∧
      Checked planner obstacles start goal waypoints := by
  have hpos : 0 < nodes.length := (List.getElem?_eq_some_iff.mp htree.root_node).1
  have hnewAt : nodes[nodes.length - 1]? = some new := List.getLast?_eq_getElem? ▸ hnew
  have hparent : (nodes.length : ℤ) - 1 = (nodes.length - 1 : ℕ) := by omega
  have hindex : ((nodes ++ [goal]).length : ℤ) - 1 = nodes.length := by
    rw [List.length_append, List.length_singleton]
    omega
  rw [hparent]
  have hgoalAt : (nodes ++ [goal])[nodes.length]? = some goal := List.getElem?_concat_length
  have hgoalParent : (parents ++ [((nodes.length - 1 : ℕ) : ℤ)])[nodes.length]? =
      some ((nodes.length - 1 : ℕ) : ℤ) := hlength ▸ List.getElem?_concat_length
  obtain ⟨down, b, hwalk, hb, ⟨rest, rfl⟩, hlast, hchain⟩ :=
    walkBack_of_rooted (htree.append [goal] [((nodes.length - 1 : ℕ) : ℤ)])
      (Nat.sub_lt hpos one_pos) (Nat.sub_lt hpos one_pos) [goal]
  rw [List.getElem?_append_left (Nat.sub_lt hpos one_pos), hnewAt] at hb
  obtain rfl := Option.some.inj hb
  refine ⟨rest ++ [goal], ?_, rest, rfl, ?_, hchain.imp fun _ _ h => h.2⟩
  · rw [path, hindex, List.length_append, List.length_singleton,
      walkBack_step hgoalAt hgoalParent, List.nil_append, hwalk, Option.map_some,
      List.reverse_append, List.reverse_reverse]
    rfl
  · refine List.isChain_append.mpr ⟨hchain.imp fun _ _ h => h.1, List.isChain_singleton goal, ?_⟩
    intro x hx y hy
    obtain rfl := Option.some.inj (hx.symm.trans hlast)
    obtain rfl := Option.some.inj hy
    exact hgoal

/-- **Run.** The loop returns the goal alone or a checked path. -/
theorem grow_spec {planner : ReferenceMotionPlanner ℝ} (hstep : 0 ≤ planner.stepM) {G : Type}
    (random : G → ℝ × G) {obstacles : List (Obstacle ℝ)} {start goal : Point ℝ} {left : ℕ}
    {rng : G} {nodes : List (Point ℝ)} {parents : List ℤ}
    (htree : Rooted (Grown planner obstacles) start nodes parents nodes.length)
    (hlength : parents.length = nodes.length) :
    ∃ waypoints, planner.grow random goal obstacles left rng nodes parents = some waypoints ∧
      (waypoints = [goal] ∨ Checked planner obstacles start goal waypoints) := by
  induction left generalizing rng nodes parents with
  | zero => exact ⟨[goal], rfl, Or.inl rfl⟩
  | succ left ih =>
    rw [ReferenceMotionPlanner.grow]
    obtain ⟨sample, rng⟩ := planner.sample random goal rng
    have hne : nodes ≠ [] := fun h => by rw [h] at htree; cases htree.root_node
    obtain ⟨hnearest, -⟩ := argmin_spec (fun node => dist node sample) hne
    obtain ⟨origin, horigin⟩ : ∃ origin, nodes[argmin (fun node => dist node sample) nodes]? =
        some origin := ⟨_, List.getElem?_eq_getElem hnearest⟩
    obtain ⟨new, hnew, hshort⟩ := steer_spec hstep origin sample
    simp only [horigin, hnew]
    by_cases hblocked : segmentFree origin new obstacles = false
    · rw [if_pos hblocked]
      exact ih htree hlength
    rw [if_neg hblocked]
    have hclear := segmentFree_iff.1 (Bool.eq_true_of_not_eq_false hblocked)
    have hgrown := htree.grow hlength horigin ⟨hclear, hshort⟩
    have hlength' : (parents ++ [(argmin (fun node => dist node sample) nodes : ℤ)]).length =
        (nodes ++ [new]).length := by
      rw [List.length_append, List.length_append, hlength]
      rfl
    by_cases hgoal : segmentFree new goal obstacles = true
    · rw [if_pos hgoal]
      obtain ⟨waypoints, hpath, hchecked⟩ :=
        path_spec hgrown hlength' List.getLast?_concat (segmentFree_iff.1 hgoal)
      exact ⟨waypoints, hpath, Or.inr hchecked⟩
    · rw [if_neg hgoal]
      exact ih hgrown hlength'

/-- The planner the task planner makes for itself. -/
noncomputable def defaultPlanner : ReferenceMotionPlanner ℝ := ⟨3 / 2, 512, 64⟩

theorem le_dist {a b : Point ℝ} {r : ℝ} (h : r ^ 2 ≤ distSq a b) : r ≤ dist a b :=
  Real.le_sqrt_of_sq_le h

/-- A planner whose steps lead away from the samples. -/
noncomputable def backwardPlanner : ReferenceMotionPlanner ℝ := ⟨-1, 1, 64⟩

/-- A small keep-out between the start (0, 0) and the goal (4, 0). -/
noncomputable def pebble : Obstacle ℝ := ⟨(2, 0), 1 / 4⟩

/-- Three draws, which make the sample (0, -2). -/
noncomputable def threeDraws (n : ℕ) : ℝ × ℕ := (if n < 2 then 1 / 2 else 31 / 64, n + 1)

theorem sample_threeDraws :
    backwardPlanner.sample threeDraws (4, 0) 0 = (((0, -2) : Point ℝ), 3) := by
  norm_num [ReferenceMotionPlanner.sample, ReferenceMotionPlanner.uniform, threeDraws,
    backwardPlanner]

theorem steer_backward : backwardPlanner.steer (0, 0) (0, -2) = some (0, 1) := by
  have hdist : dist ((0, 0) : Point ℝ) (0, -2) = 2 := by
    rw [dist_eq, show distSq (0, 0) (0, -2) = 2 ^ 2 by norm_num [distSq],
      Real.sqrt_sq zero_le_two]
  norm_num [ReferenceMotionPlanner.steer, hdist, backwardPlanner]

theorem clear_backward : Clear [pebble] (0, 0) (0, 1) ∧ Clear [pebble] (0, 1) (4, 0) ∧
    ¬ Clear [pebble] (0, 0) (4, 0) := by
  simp only [Clear, List.mem_singleton, forall_eq]
  refine ⟨fun t _ => le_dist ?_, fun t _ => le_dist ?_, fun h => ?_⟩
  · simp only [pebble, pointAt, distSq]
    nlinarith [mul_self_nonneg t]
  · simp only [pebble, pointAt, distSq]
    nlinarith [mul_self_nonneg (17 * t - 9)]
  · have hhalf := h (1 / 2) ⟨by norm_num, by norm_num⟩
    have hdist : dist (pointAt (0, 0) (4, 0) (1 / 2)) pebble.center = 0 := by
      rw [dist_eq, show distSq (pointAt (0, 0) (4, 0) (1 / 2)) pebble.center = 0 by
        norm_num [distSq, pointAt, pebble], Real.sqrt_zero]
    rw [hdist] at hhalf
    norm_num [pebble] at hhalf

end AstroMine.Mind.Motion
