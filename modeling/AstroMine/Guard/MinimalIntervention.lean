import AstroMine.Guard.ActuatorSet

/-!
# Minimal intervention (`rust/src/shield.rs`, lines 417–607)

The shield alters a proposal only when it must. A proposal on the safe side of every row and within
the actuator set is a point that every projection leaves where it is, and the certificate holds of
it: the rows bound the exact barriers from below, for a ball by the inequality between the scalar
product and the lengths.

Results:
* `dykstraLoop_self`: a feasible point is a fixed point of the projection loop.
* `Barrier.Exact.staticH_nonneg`: a command that satisfies the row of a kinematic mode stays in the
  exact safe set.
* `solveMode_minimal`: a proposal that satisfies every row and the actuator set is returned
  unchanged and certified.
-/

namespace AstroMine

namespace Flt

variable {K : Type} [LinearOrder K]

theorem not_lt_of_le {a b : Flt K} (h : a ≤ b) : ¬ b < a := by
  cases a <;> cases b <;>
    first
      | exact fun h' => h'
      | exact fun h' => h' rfl
      | exact not_lt.mpr h
      | exact absurd h id
      | cases h

variable [Field K] [IsStrictOrderedRing K]

theorem sub_fin_le {a b : Flt K} {tol : K} (h : a ≤ b) (htol : 0 ≤ tol) : a - fin tol ≤ b := by
  cases a with
  | nan => exact absurd h (not_nan_le b)
  | negInf => exact h
  | posInf => exact h
  | fin x =>
    cases b with
    | nan => exact h
    | negInf => exact h
    | posInf => exact trivial
    | fin y =>
      rw [fin_sub, fin_le_fin]
      exact (sub_le_self x htol).trans h

end Flt

namespace Guard

open Flt

/-! ## Projections that change nothing -/

theorem ballScale_self {len : ℝ} {radius : Flt ℝ} (h : fin len ≤ radius) :
    ballScale (fin len) radius = 1 := by
  cases radius with
  | nan => exact absurd h id
  | negInf => exact absurd h id
  | posInf => rfl
  | fin r =>
    have hlen : ¬ r < len := not_lt.mpr h
    unfold ballScale
    simp only [isFinite_fin, zero_def, fin_lt_fin, hlen, decide_false, Bool.and_false,
      Bool.false_and, Bool.not_false, if_true]

theorem add_zero_coords (xr : List ℝ) :
    List.zipWith (· + ·) (xr.map fin) (List.replicate xr.length 0) = xr.map fin := by
  induction xr with
  | nil => rfl
  | cons x xr ih =>
    have hx : (fin x + 0 : Flt ℝ) = fin x := by simp
    rw [List.map_cons, List.length_cons, List.replicate_succ, List.zipWith_cons_cons, ih, hx]

/-- A row that the command satisfies. -/
def OnSafeSide (row : BarrierRow ℝ) (x : List (Flt ℝ)) : Prop := row.b ≤ dot row.a x

/-- A sweep over rows that hold leaves the iterate where it is. -/
theorem sweep_self {rows : List (BarrierRow ℝ)} {xr : List ℝ}
    (h : ∀ row ∈ rows, OnSafeSide row (xr.map fin)) :
    sweep rows (rows.map fun _ => List.replicate xr.length 0) (xr.map fin) =
      (rows.map fun _ => List.replicate xr.length 0, xr.map fin) := by
  induction rows with
  | nil => rfl
  | cons row rows ih =>
    have hrow : ¬ dot row.a (xr.map fin) < row.b := not_lt_of_le (h row (by simp))
    simp only [List.map_cons, sweep, add_zero_coords, hrow, false_and, if_false,
      ih fun r hr => h r (List.mem_cons_of_mem _ hr)]
    simp [Function.comp_def]

namespace Shield

variable {s : Shield ℝ} {mode : ControlMode} {pr xr : List ℝ}

/-- A command of the actuator set is its own projection. -/
theorem projectKinematic_self (hp : pr.length = s.dim) (hx : xr.length = s.dim)
    (h : InActuatorSet s.uMax s.vMax s.stepMax mode pr xr) :
    s.projectKinematic mode (pr.map fin) (xr.map fin) = .ok (xr.map fin) := by
  cases mode with
  | effort =>
    show (xr.map fin).mapM (fun yi => projectBoxAxis yi s.uMax) = .ok (xr.map fin)
    have haxes : ∀ x ∈ xr, fin |x| ≤ s.uMax := h
    clear h hx hp
    induction xr with
    | nil => rfl
    | cons x xr ih =>
      rw [List.map_cons, List.mapM_cons, projectBoxAxis,
        clampOrPanic_self (haxes x (by simp)), ih fun y hy => haxes y (List.mem_cons_of_mem _ hy)]
      rfl
  | velocity =>
    have hlen : fin (euclid xr) ≤ s.vMax := h
    have htake : (xr.map fin).take s.dim = xr.map fin :=
      List.take_of_length_le (by simp [hx])
    show Except.ok _ = _
    rw [htake, norm, sqrt_sum_sq, ballScale_self hlen, List.map_map]
    congr 1
    apply List.map_congr_left
    intro x _
    simp
  | position =>
    have hcap : fin (euclid (vsub xr pr)) ≤ s.stepMax := h
    show Except.ok _ = _
    rw [zipWith_sub, norm, sqrt_sum_sq, ballScale_self hcap]
    congr 1
    have hlen : pr.length = xr.length := hp.trans hx.symm
    clear h hp hx hcap
    induction xr generalizing pr with
    | nil => simp [vsub]
    | cons x xr ih =>
      obtain ⟨y, pr, rfl⟩ := List.exists_cons_of_length_eq_add_one hlen
      have hmove : (fin y + fin (x - y) * 1 : Flt ℝ) = fin x := by simp
      show (fin y + fin (x - y) * 1) :: _ = _
      rw [hmove]
      exact congrArg _ (ih (by simpa using hlen))

/-- **Step.** A feasible point is a fixed point of the projection loop. -/
theorem dykstraLoop_self {rows : List (BarrierRow ℝ)} {tol : ℝ} (htol : s.cfg.tol = fin tol)
    (hpos : 0 < tol) (hp : pr.length = s.dim) (hx : xr.length = s.dim)
    (hset : InActuatorSet s.uMax s.vMax s.stepMax mode pr xr)
    (hrows : ∀ row ∈ rows, OnSafeSide row (xr.map fin)) (n : ℕ) :
    s.dykstraLoop mode (pr.map fin) rows n (List.replicate xr.length 0)
      (rows.map fun _ => List.replicate xr.length 0) (xr.map fin) = .ok (xr.map fin) := by
  cases n with
  | zero => rfl
  | succ n =>
    rw [dykstraLoop, add_zero_coords, projectKinematic_self hp hx hset]
    show (if _ then _ else _) = _
    rw [sweep_self hrows, if_pos]
    constructor
    · have hstill : List.zipWith (fun xi xp => (xi - xp) * (xi - xp)) (xr.map fin) (xr.map fin) =
          ((xr.map fun _ => (0 : ℝ)).map fin) := by
        rw [List.zipWith_self, List.map_map, List.map_map]
        apply List.map_congr_left
        intro x _
        simp
      rw [hstill, sum_fin, htol, fin_mul, fin_lt_fin]
      simpa using mul_pos hpos hpos
    · apply List.all_eq_true.mpr
      intro row hrow
      rw [htol]
      exact decide_eq_true (sub_fin_le (hrows row hrow) hpos.le)

/-- A command of the actuator set passes the kinematic check of the certificate. -/
theorem certifyKinematic_self {tol : ℝ} (htol : s.cfg.tol = fin tol) (hpos : 0 < tol)
    (hset : InActuatorSet s.uMax s.vMax s.stepMax mode pr xr) :
    s.certifyKinematic mode (pr.map fin) (xr.map fin) = true := by
  have hle (u : Flt ℝ) (r : ℝ) (h : fin r ≤ u) : ¬ u + s.cfg.tol < fin r := by
    refine not_lt_of_le ?_
    rw [htol]
    exact le_add_of_le h (show (0 : ℝ) ≤ tol from hpos.le)
  cases mode with
  | effort =>
    have haxes : ∀ x ∈ xr, fin |x| ≤ s.uMax := hset
    apply List.all_eq_true.mpr
    intro y hy
    obtain ⟨x, hx, rfl⟩ := List.mem_map.mp hy
    simp only [isFinite_fin, abs_fin, hle s.uMax _ (haxes x hx), decide_false, Bool.not_false,
      Bool.and_self]
  | velocity =>
    have hlen : fin (euclid xr) ≤ s.vMax := hset
    simp only [certifyKinematic, norm, sqrt_sum_sq, isFinite_fin, Bool.true_and,
      hle s.vMax _ hlen, decide_false, Bool.not_false]
  | position =>
    have hlen : fin (euclid (vsub xr pr)) ≤ s.stepMax := hset
    have hall : (xr.map fin).all Flt.isFinite = true := by simp
    simp only [certifyKinematic, hall, zipWith_sub, norm, sqrt_sum_sq, Bool.true_and,
      hle s.stepMax _ hlen, decide_false, Bool.not_false]

end Shield

/-! ## Rows and exact barriers -/

/-- A barrier with real coefficients in a space of dimension `dim`. -/
inductive Barrier.Exact (dim : ℕ) : Barrier ℝ → Prop where
  | norm (c : List ℝ) (radius : ℝ) (hc : c.length = dim) :
      Exact dim (.norm (c.map fin) (fin radius))
  | half (n : List ℝ) (rhs : ℝ) (hn : n.length = dim) : Exact dim (.half (n.map fin) (fin rhs))

theorem Barrier.fromTerm_exact {t : KeepOutTerm ℝ} {k : KeepOut} {dim : ℕ} (hk : k.Describes t)
    (hdim : geometryDim t = .ok dim) : (Barrier.fromTerm t dim).Exact dim := by
  have hlen := geometryDim_describes hk hdim
  rw [Barrier.fromTerm_describes hk hdim]
  cases k with
  | sphere center radius margin => exact .norm center _ hlen
  | box center halfExtents margin => exact .norm center _ hlen
  | halfSpace normal offset margin =>
    exact .half _ _ (by rw [List.length_map]; exact hlen)

theorem diff_coords {c pr : List ℝ} {p : List (Flt ℝ)} {dim : ℕ} (hc : c.length = dim)
    (hp : p.take dim = pr.map fin) (hpl : pr.length = dim) :
    ((List.range dim).map fun i => coordAt p i - coordAt (c.map fin) i) = (vsub pr c).map fin := by
  have hvsub : vsub pr c = (List.range dim).map fun i => pr.getD i 0 - c.getD i 0 := by
    apply List.ext_getElem
    · simp [vsub, hpl, hc]
    · intro i h₁ h₂
      have hi : i < dim := by simpa using h₂
      simp [vsub, hi, hpl, hc]
  rw [hvsub, List.map_map]
  apply List.map_congr_left
  intro i hi
  rw [coordAt_of_take hp (List.mem_range.mp hi), coordAt_map_fin, fin_sub]
  rfl

section Rows

variable {b : Barrier ℝ} {mode : ControlMode} {dim : ℕ} {T : ℝ} {k0 k1 : Flt ℝ}
  {p v : List (Flt ℝ)} {pr xr : List ℝ}

/-- A row of a kinematic mode says that the barrier value, carried linearly to the next pose, is
not negative. -/
theorem row_linear (hmode : mode ≠ .effort) (hT : 0 < T) {a : List ℝ} {h : ℝ}
    (ha : a.length = dim) (hp : p.take dim = pr.map fin) (hpl : pr.length = dim)
    (hxl : xr.length = dim)
    (hrow : barrierRhs b mode dim k0 k1 (fin T) p v (a.map fin) (fin h) ≤
      dot (a.map fin) (xr.map fin)) :
    0 ≤ h + (scalar a (nextPose mode T pr xr) - scalar a pr) := by
  cases mode with
  | effort => exact absurd rfl hmode
  | velocity =>
    rw [barrierRhs, dot, sum_zipWith_mul, neg_fin, fin_div hT.ne', fin_le_fin] at hrow
    rw [nextPose, scalar_move (hpl.trans ha.symm) (hxl.trans ha.symm)]
    have := (div_le_iff₀ hT).mp hrow
    linarith
  | position =>
    have htake : (a.map fin).take dim = a.map fin := List.take_of_length_le (by simp [ha])
    rw [barrierRhs, htake, hp, dot, dot, sum_zipWith_mul, sum_zipWith_mul, fin_sub,
      fin_le_fin] at hrow
    rw [nextPose]
    linarith

/-- **Step.** A command that satisfies the row of a kinematic mode stays in the safe set. -/
theorem Barrier.Exact.staticH_nonneg (hb : b.Exact dim) (hmode : mode ≠ .effort) (hT : 0 < T)
    (hp : p.take dim = pr.map fin) (hpl : pr.length = dim) (hxl : xr.length = dim)
    (hok : (evalBarrier b mode dim k0 k1 (fin T) p v).ok = true)
    (hrow : OnSafeSide (evalBarrier b mode dim k0 k1 (fin T) p v) (xr.map fin)) {coord : ℕ → Flt ℝ}
    (hcoord : ∀ i, i < dim → coord i = fin ((nextPose mode T pr xr).getD i 0)) :
    ∃ h : ℝ, 0 ≤ h ∧ b.staticH dim coord = fin h := by
  have hql : (nextPose mode T pr xr).length = dim := Shield.nextPose_length hpl hxl
  cases hb with
  | norm c radius hc =>
    have hd : Flt.sqrt (distSq (c.map fin) dim (coordAt p)) = fin (euclid (vsub pr c)) :=
      sqrt_distSq hc hpl fun i hi => coordAt_of_take hp hi
    obtain ⟨r, hr⟩ : ∃ r, r = vsub pr c := ⟨_, rfl⟩
    have hrl : r.length = dim := by simp [hr, vsub, hpl, hc]
    unfold OnSafeSide evalBarrier at hrow
    unfold evalBarrier at hok
    simp only [hd, diff_coords hc hp hpl, fin_lt_fin, ← hr] at hrow hok
    by_cases hfar : euclid r < 1 / 10 ^ 9
    · rw [if_pos hfar] at hok
      cases hok
    · have hpos : 0 < euclid r := lt_of_lt_of_le (by positivity) (not_lt.mp hfar)
      have hunit : (r.map fin).map (· / fin (euclid r)) = (r.map (· / euclid r)).map fin := by
        rw [List.map_map, List.map_map]
        exact List.map_congr_left fun x _ => fin_div hpos.ne'
      rw [if_neg hfar, fin_sub, hunit] at hrow
      have hlin := row_linear hmode hT (by simpa using hrl) hp hpl hxl hrow
      have hdist := sqrt_distSq hc hql hcoord
      refine ⟨euclid (vsub (nextPose mode T pr xr) c) - radius, ?_, ?_⟩
      · -- along the radius the next pose is at least as far as the linear bound says
        have hnext := scalar_le r (vsub (nextPose mode T pr xr) c)
        have hself := scalar_self r
        rw [scalar_vsub (hql.trans hrl.symm) (hc.trans hrl.symm)] at hnext
        nth_rewrite 2 [hr] at hself
        rw [scalar_vsub (hpl.trans hrl.symm) (hc.trans hrl.symm)] at hself
        rw [scalar_div, scalar_div, ← sub_div] at hlin
        have hmul : 0 ≤ (euclid r - radius) * euclid r +
            (scalar r (nextPose mode T pr xr) - scalar r pr) := by
          have := mul_nonneg hlin hpos.le
          rwa [add_mul, div_mul_cancel₀ _ hpos.ne'] at this
        nlinarith
      · rw [Barrier.staticH, hdist, fin_sub]
  | half n rhs hn =>
    have htake : (n.map fin).take dim = n.map fin := List.take_of_length_le (by simp [hn])
    have hh : dot (n.map fin) p - fin rhs = fin (scalar n pr - rhs) := by
      have htrunc : List.zipWith (· * ·) (n.map fin) p =
          List.zipWith (· * ·) (n.map fin) (pr.map fin) := by
        rw [← hp, ← htake, ← List.take_zipWith, htake, List.take_of_length_le]
        simp [hn]
      rw [dot, htrunc, sum_zipWith_mul, fin_sub]
    unfold OnSafeSide evalBarrier at hrow
    simp only [htake, hh] at hrow
    have hlin := row_linear hmode hT hn hp hpl hxl hrow
    refine ⟨scalar n (nextPose mode T pr xr) - rhs, by linarith, ?_⟩
    rw [Barrier.staticH, sum_coords_mul hn hql hcoord, fin_sub]

end Rows

/-! ## The shield on a safe proposal -/

namespace Shield

/-- The proposal is on the safe side of the row of a barrier. At the centre of a ball the row has no
direction and no proposal satisfies it. -/
def SatisfiesRow (s : Shield ℝ) (mode : ControlMode) (p v x : List (Flt ℝ)) (b : Barrier ℝ) :
    Prop :=
  (evalBarrier b mode s.dim s.cfg.k0 s.cfg.k1 s.dt p v).ok = true ∧
    OnSafeSide (evalBarrier b mode s.dim s.cfg.k0 s.cfg.k1 s.dt p v) x

/-- A proposal on the safe side of every row and in the actuator set is certified. -/
theorem certify_self {s : Shield ℝ} {mode : ControlMode} {p v : List (Flt ℝ)} {pr xr : List ℝ}
    {T tol : ℝ} (hexact : ∀ b ∈ s.barriers, b.Exact s.dim) (hdt : s.dt = fin T) (hT : 0 < T)
    (htol : s.cfg.tol = fin tol) (hpos : 0 < tol) (hp : p.take s.dim = pr.map fin)
    (hpl : pr.length = s.dim) (hxl : xr.length = s.dim)
    (hrows : ∀ b ∈ s.barriers, s.SatisfiesRow mode p v (xr.map fin) b)
    (hset : InActuatorSet s.uMax s.vMax s.stepMax mode pr xr) :
    s.certify mode p (xr.map fin)
      (s.barriers.map fun b => evalBarrier b mode s.dim s.cfg.k0 s.cfg.k1 s.dt p v) = true := by
  have hside : (s.barriers.map fun b =>
      evalBarrier b mode s.dim s.cfg.k0 s.cfg.k1 s.dt p v).all (fun row =>
        !decide (dot row.a (xr.map fin) < row.b - s.cfg.tol)) = true := by
    apply List.all_eq_true.mpr
    intro row hrow
    obtain ⟨b, hb, rfl⟩ := List.mem_map.mp hrow
    rw [htol, decide_eq_false (not_lt_of_le (sub_fin_le (hrows b hb).2 hpos.le)), Bool.not_false]
  have hkin : s.certifyKinematic mode (p.take s.dim) (xr.map fin) = true := by
    rw [hp]
    exact certifyKinematic_self htol hpos hset
  rw [certify, hside, hkin, Bool.true_and, Bool.true_and, Bool.or_eq_true]
  by_cases hmode : mode = .effort
  · exact .inl (decide_eq_true hmode)
  · refine .inr (List.all_eq_true.mpr fun b hb => ?_)
    obtain ⟨hok, hrow⟩ := hrows b hb
    rw [hdt] at hok hrow
    obtain ⟨h, hnonneg, hh⟩ := (hexact b hb).staticH_nonneg hmode hT hp hpl hxl hok hrow
      fun i hi => next_eq hdt hp hpl hxl hi
    rw [hh, htol, neg_fin, decide_eq_false, Bool.not_false]
    exact fun hlt => absurd (show h < -tol from hlt) (by linarith)

theorem exists_soundDt (dt : Flt ℝ) : ∃ T : ℝ, 0 < T ∧ soundDt dt = fin T := by
  unfold soundDt
  split_ifs with h
  · exact isFinite_pos h
  · exact ⟨1, one_pos, rfl⟩

/-- **Main theorem.** A proposal that satisfies every barrier row and the actuator set of its mode
is returned unchanged and certified. -/
theorem solveMode_minimal {terms : List (KeepOutTerm ℝ)} {d : ℕ} {cfg : ShieldConfig ℝ}
    {dt : Flt ℝ} {limits : ActionLimits ℝ} {mode : ControlMode} {p v x0 : List (Flt ℝ)}
    {pr vr xr : List ℝ} {tol : ℝ}
    (hterms : ∀ t ∈ terms, geometryDim t = .ok d ∧ ∃ k : KeepOut, k.Describes t)
    (htol : cfg.tol = fin tol) (hpos : 0 < tol)
    (hp : p.take d = pr.map fin) (hpl : pr.length = d) (hv : v.take d = vr.map fin)
    (hvl : vr.length = d) (hx : x0.take d = xr.map fin) (hxl : xr.length = d)
    (hrows : ∀ b ∈ (Shield.new terms d cfg dt limits).barriers,
      (Shield.new terms d cfg dt limits).SatisfiesRow mode p v (xr.map fin) b)
    (hset : InActuatorSet (Shield.new terms d cfg dt limits).uMax
      (Shield.new terms d cfg dt limits).vMax (Shield.new terms d cfg dt limits).stepMax mode pr xr) :
    ∃ minH, (Shield.new terms d cfg dt limits).solveMode mode p v x0 =
      .ok { certified := true, minH := minH, action := x0.take d } := by
  obtain ⟨s, hs⟩ : ∃ s, s = Shield.new terms d cfg dt limits := ⟨_, rfl⟩
  rw [← hs] at hrows hset ⊢
  have hdim : s.dim = d := by rw [hs]; rfl
  have hcfg : s.cfg = cfg := by rw [hs]; rfl
  obtain ⟨T, hT, hdt⟩ : ∃ T : ℝ, 0 < T ∧ s.dt = fin T := by
    rw [hs]
    exact exists_soundDt dt
  have hexact : ∀ b ∈ s.barriers, b.Exact s.dim := by
    intro b hb
    rw [hs] at hb
    obtain ⟨t, ht, rfl⟩ := List.mem_map.mp hb
    obtain ⟨hgeo, k, hk⟩ := hterms t ht
    rw [hdim]
    exact Barrier.fromTerm_exact hk hgeo
  rw [← hcfg] at htol
  subst hdim
  have hlong {xs : List (Flt ℝ)} {r : List ℝ} (h : xs.take s.dim = r.map fin)
      (hl : r.length = s.dim) : ¬ xs.length < s.dim := by
    have := congrArg List.length h
    simp only [List.length_take, List.length_map] at this
    omega
  have hfinite : ¬ (p.take s.dim ++ v.take s.dim ++ x0.take s.dim).any
      (fun x => !x.isFinite) = true := by
    rw [hp, hv, hx]
    simp
  have hok : ¬ (s.barriers.map fun b =>
      evalBarrier b mode s.dim s.cfg.k0 s.cfg.k1 s.dt p v).any (fun row => !row.ok) = true := by
    intro hany
    obtain ⟨row, hrow, hbad⟩ := List.any_eq_true.mp hany
    obtain ⟨b, hb, rfl⟩ := List.mem_map.mp hrow
    rw [(hrows b hb).1] at hbad
    cases hbad
  have hside : ∀ row ∈ s.barriers.map fun b =>
      evalBarrier b mode s.dim s.cfg.k0 s.cfg.k1 s.dt p v, OnSafeSide row (xr.map fin) := by
    intro row hrow
    obtain ⟨b, hb, rfl⟩ := List.mem_map.mp hrow
    exact (hrows b hb).2
  have hloop := dykstraLoop_self htol hpos hpl hxl hset hside s.cfg.maxIter
  rw [hxl] at hloop
  rw [solveMode, if_neg]
  · dsimp only
    rw [if_neg hok, dykstra, hp, hx]
    simp only [hloop]
    exact ⟨_, congrArg (fun c => Except.ok (ShieldOutcome.mk c _ (xr.map fin)))
      (certify_self hexact hdt hT htol hpos hp hpl hxl hrows hset)⟩
  · rw [not_or, not_or, not_or]
    exact ⟨hlong hp hpl, hlong hv hvl, hlong hx hxl, hfinite⟩

theorem halfLine_toBarrier :
    (KeepOut.halfSpace [1] 0 0).toBarrier = .half [fin 1] (fin 0) := by
  have hone : max (euclid [1]) ((1 : ℝ) / 2 ^ 1022) = 1 := by
    rw [euclid_cons, euclid_of_forall_zero (by simp), mul_zero, add_zero, mul_one, Real.sqrt_one,
      max_eq_left]
    rw [div_le_one (by positivity)]
    exact one_le_pow₀ (by norm_num)
  simp only [KeepOut.toBarrier, hone]
  simp

/-- Beside a half-line, standing still is certified as it was proposed. -/
theorem solveMode_minimal_halfLine :
    ∃ minH, (Shield.new SafetyCore.halfLineModel.keepOutTerms 1 .default (fin 1) {}).solveMode
        .velocity [fin 10] [fin 0] [fin 0] =
      .ok { certified := true, minH := minH, action := [fin 0] } := by
  have hterms : ∀ t ∈ SafetyCore.halfLineModel.keepOutTerms,
      geometryDim t = .ok 1 ∧ (KeepOut.halfSpace [1] 0 0).Describes t := by
    intro t ht
    obtain rfl := List.mem_singleton.mp ht
    exact ⟨rfl, rfl, rfl, rfl, rfl⟩
  have hdt : soundDt (fin 1 : Flt ℝ) = fin 1 := if_pos ⟨rfl, (zero_lt_one : (0 : ℝ) < 1)⟩
  have htol : (ShieldConfig.default : ShieldConfig ℝ).tol = fin (1 / 10 ^ 7) := rfl
  have hp : [(fin 10 : Flt ℝ)].take 1 = [10].map fin := rfl
  have hv : [(fin 0 : Flt ℝ)].take 1 = [0].map fin := rfl
  refine solveMode_minimal (fun t ht => ⟨(hterms t ht).1, _, (hterms t ht).2⟩) htol (by positivity)
    hp rfl hv rfl hv rfl ?_ ?_
  · intro b hb
    obtain ⟨t, ht, rfl⟩ := List.mem_map.mp hb
    obtain ⟨hgeo, hk⟩ := hterms t ht
    rw [Barrier.fromTerm_describes hk hgeo, halfLine_toBarrier]
    refine ⟨rfl, ?_⟩
    unfold OnSafeSide Shield.new
    rw [hdt]
    simp [evalBarrier, barrierRhs, dot, Flt.sum, fin_div]
  · show fin (euclid [0]) ≤ _
    rw [euclid_of_forall_zero (by simp)]
    exact (zero_le_two : (0 : ℝ) ≤ 2)

end Shield

end Guard

end AstroMine
