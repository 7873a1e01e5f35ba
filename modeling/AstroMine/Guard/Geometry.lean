import AstroMine.Guard.Response

/-!
# Keep-out coefficients (`rust/src/model.rs`, lines 388–516)

The decoder checks how many coefficients a keep-out term carries and never what they are: it
copies them, and the barriers of the shield are built from the copies. Where one of them is not
finite the barrier evaluates to a value that no comparison of `certify` refuses.

Results:
* `fromProto_mapGeometry`: the decoder answers the same whatever the coefficients are.
* `staticH_finite_iff`: the barrier of a term has finite values exactly when the coefficients that
  its shape uses are finite.
* `fromProto_geometry_iff`: an accepted model has sound geometry exactly when the terms that were
  sent have.
-/

namespace AstroMine.Guard

variable {K : Type}

/-! ## The decoder copies coefficients -/

theorem Shape.parse_eq_ok {s : String} {shape : Shape} (h : Shape.parse s = .ok shape) :
    (s = "box" ∧ shape = .box) ∨ (s = "sphere" ∧ shape = .sphere) ∨
      (s = "half_space" ∧ shape = .halfSpace) := by
  unfold Shape.parse at h
  split_ifs at h with hbox hsphere hhalf
  · cases h
    exact .inl ⟨hbox, rfl⟩
  · cases h
    exact .inr (.inl ⟨hsphere, rfl⟩)
  · cases h
    exact .inr (.inr ⟨hhalf, rfl⟩)

/-- **Spec.** What the decoder copies. -/
theorem decodeKeepOut_copies {p : Proto.KeepOutTerm K} {t : KeepOutTerm K}
    (h : decodeKeepOut p = .ok t) : ∃ onUncertain shape, Shape.parse p.shape = .ok shape ∧
      t = { constraintId := p.constraintId, onUncertain := onUncertain, shape := shape
            marginM := p.marginM, center := p.center, halfExtents := p.halfExtents
            radius := p.radius, normal := p.normal, offset := p.offset } := by
  simp only [decodeKeepOut, bind_eq_ok] at h
  obtain ⟨-, -, onUncertain, -, shape, hshape, d, -, h⟩ := h
  cases h
  exact ⟨onUncertain, shape, hshape, rfl⟩

/-- The term with `g` applied to every coefficient. -/
def KeepOutTerm.mapGeometry (g : Flt K → Flt K) (t : KeepOutTerm K) : KeepOutTerm K :=
  { t with
    marginM := g t.marginM, center := t.center.map g, halfExtents := t.halfExtents.map g
    radius := t.radius.map g, normal := t.normal.map g, offset := t.offset.map g }

/-- The term on the wire with `g` applied to every coefficient. -/
def Proto.KeepOutTerm.mapGeometry (g : Flt K → Flt K) (t : Proto.KeepOutTerm K) :
    Proto.KeepOutTerm K :=
  { t with
    marginM := g t.marginM, center := t.center.map g, halfExtents := t.halfExtents.map g
    radius := t.radius.map g, normal := t.normal.map g, offset := t.offset.map g }

/-- The model on the wire with `g` applied to every keep-out coefficient. -/
def Proto.CompiledSafetyModel.mapGeometry (g : Flt K → Flt K) (p : Proto.CompiledSafetyModel K) :
    Proto.CompiledSafetyModel K :=
  { p with keepOutTerms := p.keepOutTerms.map (·.mapGeometry g) }

/-- The model with `g` applied to every keep-out coefficient. -/
def CompiledSafetyModel.mapGeometry (g : Flt K → Flt K) (m : CompiledSafetyModel K) :
    CompiledSafetyModel K :=
  { m with keepOutTerms := m.keepOutTerms.map (·.mapGeometry g) }

theorem geometryDim_mapGeometry (g : Flt K → Flt K) (t : KeepOutTerm K) :
    geometryDim (t.mapGeometry g) = geometryDim t := by
  obtain ⟨id, onUncertain, shape, marginM, center, halfExtents, radius, normal, offset⟩ := t
  unfold geometryDim geometryArity KeepOutTerm.mapGeometry
  cases shape <;> simp only [List.length_map, Option.isSome_map]

theorem decodeKeepOut_mapGeometry (g : Flt K → Flt K) (p : Proto.KeepOutTerm K) :
    decodeKeepOut (p.mapGeometry g) = (decodeKeepOut p).map (·.mapGeometry g) := by
  unfold decodeKeepOut Proto.KeepOutTerm.mapGeometry
  dsimp only
  cases validateFrameRef p.frameRef ("keep-out " ++ p.constraintId) with
  | error e => rfl
  | ok u =>
    cases OnUncertain.parse p.onUncertain with
    | error e => rfl
    | ok onUncertain =>
      cases Shape.parse p.shape with
      | error e => rfl
      | ok shape =>
        let t : KeepOutTerm K :=
          { constraintId := p.constraintId, onUncertain := onUncertain, shape := shape
            marginM := p.marginM, center := p.center, halfExtents := p.halfExtents
            radius := p.radius, normal := p.normal, offset := p.offset }
        have hdim := geometryDim_mapGeometry g t
        show (geometryDim (t.mapGeometry g) >>= fun _ => .ok (t.mapGeometry g)) =
          (geometryDim t >>= fun _ => .ok t).map (·.mapGeometry g)
        rw [hdim]
        cases geometryDim t <;> rfl

theorem mapM_decodeKeepOut_mapGeometry (g : Flt K → Flt K) (ps : List (Proto.KeepOutTerm K)) :
    (ps.map (·.mapGeometry g)).mapM decodeKeepOut =
      (ps.mapM decodeKeepOut).map (List.map (·.mapGeometry g)) := by
  induction ps with
  | nil => rfl
  | cons p ps ih =>
    rw [List.map_cons, List.mapM_cons, List.mapM_cons, ih, decodeKeepOut_mapGeometry]
    cases decodeKeepOut p with
    | error e => rfl
    | ok t => cases ps.mapM decodeKeepOut <;> rfl

theorem spatialDimOf_mapGeometry (g : Flt K → Flt K) (ts : List (KeepOutTerm K))
    (dim : Option ℕ) : spatialDimOf (ts.map (·.mapGeometry g)) dim = spatialDimOf ts dim := by
  induction ts generalizing dim with
  | nil => rfl
  | cons t ts ih =>
    rw [List.map_cons, spatialDimOf, spatialDimOf, geometryDim_mapGeometry]
    simp only [ih]

/-- **Spec.** The keep-out terms of an accepted model are the decoded ones. -/
theorem fromProto_keepOutTerms [Field K] [LinearOrder K] {p : Proto.CompiledSafetyModel K}
    {cap : ℕ} {m : CompiledSafetyModel K} (h : CompiledSafetyModel.fromProto p cap = .ok m) :
    p.keepOutTerms.mapM decodeKeepOut = .ok m.keepOutTerms := by
  simp only [CompiledSafetyModel.fromProto, bind_eq_ok] at h
  obtain ⟨-, -, table, -, atoms, -, bounds, -, terms, hterms, dim, -, monitors, -, pose, -,
    limits, -, directives, -, rb, -, h⟩ := h
  cases h
  exact hterms

/-- **Main theorem.** The decoder answers the same whatever the keep-out coefficients are. -/
theorem fromProto_mapGeometry [Field K] [LinearOrder K] (g : Flt K → Flt K)
    (p : Proto.CompiledSafetyModel K) (cap : ℕ) :
    CompiledSafetyModel.fromProto (p.mapGeometry g) cap =
      (CompiledSafetyModel.fromProto p cap).map (·.mapGeometry g) := by
  unfold CompiledSafetyModel.fromProto Proto.CompiledSafetyModel.mapGeometry
  dsimp only
  rw [mapM_decodeKeepOut_mapGeometry]
  show _ = CompiledSafetyModel.mapGeometry g <$> _
  simp only [map_bind, map_pure]
  congr; funext u; congr; funext table; congr; funext atoms; congr; funext bounds
  show (List.map _ <$> _) >>= _ = _
  rw [bind_map_left]
  congr; funext terms
  rw [spatialDimOf_mapGeometry]
  rfl

theorem geometryDim_sphere {t : KeepOutTerm K} {dim : ℕ} (hshape : t.shape = .sphere)
    (h : geometryDim t = .ok dim) : t.center.length = dim := by
  simp only [geometryDim, geometryArity, hshape, bind_eq_ok, ensure_eq_ok] at h
  obtain ⟨d, ⟨-, -, hd⟩, -, -, h⟩ := h
  exact (Except.ok.inj hd).trans (Except.ok.inj h)

theorem geometryDim_box {t : KeepOutTerm K} {dim : ℕ} (hshape : t.shape = .box)
    (h : geometryDim t = .ok dim) : t.center.length = dim := by
  simp only [geometryDim, geometryArity, hshape, bind_eq_ok, ensure_eq_ok] at h
  obtain ⟨d, ⟨-, -, hd⟩, -, -, h⟩ := h
  exact (Except.ok.inj hd).trans (Except.ok.inj h)

theorem geometryDim_halfSpace {t : KeepOutTerm K} {dim : ℕ} (hshape : t.shape = .halfSpace)
    (h : geometryDim t = .ok dim) : t.normal.length = dim := by
  simp only [geometryDim, geometryArity, hshape, bind_eq_ok, ensure_eq_ok] at h
  obtain ⟨d, ⟨-, -, hd⟩, -, -, h⟩ := h
  exact (Except.ok.inj hd).trans (Except.ok.inj h)

/-! ## Sound coefficients -/

section Sound

variable [Field K] [LinearOrder K]

/-- The number is finite. -/
abbrev FiniteNumber (x : Flt K) : Prop := x.isFinite = true

/-- The coefficients that the shape of the term uses are finite. -/
def KeepOutTerm.FiniteGeometry (t : KeepOutTerm K) : Prop :=
  FiniteNumber t.marginM ∧
    match t.shape with
    | .sphere => (∀ x ∈ t.center, FiniteNumber x) ∧ ∀ r, t.radius = some r → FiniteNumber r
    | .box => (∀ x ∈ t.center, FiniteNumber x) ∧ ∀ e ∈ t.halfExtents, FiniteNumber e
    | .halfSpace => (∀ x ∈ t.normal, FiniteNumber x) ∧ ∀ o, t.offset = some o → FiniteNumber o

/-- Margin, radius and half extents are not negative, and a plane has a normal. -/
def KeepOutTerm.ProperGeometry (t : KeepOutTerm K) : Prop :=
  0 ≤ t.marginM ∧
    match t.shape with
    | .sphere => ∀ r, t.radius = some r → 0 ≤ r
    | .box => ∀ e ∈ t.halfExtents, 0 ≤ e
    | .halfSpace => ∃ x ∈ t.normal, x ≠ 0

/-- The coefficients of a term on the wire are sound: those that its shape uses are finite, margin,
radius and half extents are not negative, and a plane has a normal. -/
def Proto.KeepOutTerm.Sound (t : Proto.KeepOutTerm K) : Prop :=
  (FiniteNumber t.marginM ∧ 0 ≤ t.marginM) ∧
    (t.shape = "sphere" → (∀ x ∈ t.center, FiniteNumber x) ∧
      ∀ r, t.radius = some r → FiniteNumber r ∧ 0 ≤ r) ∧
    (t.shape = "box" → (∀ x ∈ t.center, FiniteNumber x) ∧
      ∀ e ∈ t.halfExtents, FiniteNumber e ∧ 0 ≤ e) ∧
    (t.shape = "half_space" → (∀ x ∈ t.normal, FiniteNumber x) ∧ (∃ x ∈ t.normal, x ≠ 0) ∧
      ∀ o, t.offset = some o → FiniteNumber o)

/-- A decoded term is as sound as the term that was sent. -/
theorem decodeKeepOut_sound_iff {p : Proto.KeepOutTerm K} {t : KeepOutTerm K}
    (h : decodeKeepOut p = .ok t) : t.FiniteGeometry ∧ t.ProperGeometry ↔ p.Sound := by
  obtain ⟨onUncertain, shape, hshape, rfl⟩ := decodeKeepOut_copies h
  unfold KeepOutTerm.FiniteGeometry KeepOutTerm.ProperGeometry Proto.KeepOutTerm.Sound
  obtain ⟨hs, rfl⟩ | ⟨hs, rfl⟩ | ⟨hs, rfl⟩ := Shape.parse_eq_ok hshape
  · simp only [hs, true_implies, String.reduceEq, false_implies, true_and, and_true]
    constructor
    · rintro ⟨⟨hm, hc, he⟩, hm', he'⟩
      exact ⟨⟨hm, hm'⟩, hc, fun e hmem => ⟨he e hmem, he' e hmem⟩⟩
    · rintro ⟨⟨hm, hm'⟩, hc, he⟩
      exact ⟨⟨hm, hc, fun e hmem => (he e hmem).1⟩, hm', fun e hmem => (he e hmem).2⟩
  · simp only [hs, true_implies, String.reduceEq, false_implies, and_true]
    constructor
    · rintro ⟨⟨hm, hc, hr⟩, hm', hr'⟩
      exact ⟨⟨hm, hm'⟩, hc, fun r hmem => ⟨hr r hmem, hr' r hmem⟩⟩
    · rintro ⟨⟨hm, hm'⟩, hc, hr⟩
      exact ⟨⟨hm, hc, fun r hmem => (hr r hmem).1⟩, hm', fun r hmem => (hr r hmem).2⟩
  · simp only [hs, true_implies, String.reduceEq, false_implies, true_and]
    constructor
    · rintro ⟨⟨hm, hn, ho⟩, hm', hn'⟩
      exact ⟨⟨hm, hm'⟩, hn, hn', ho⟩
    · rintro ⟨⟨hm, hm'⟩, hn, hn', ho⟩
      exact ⟨⟨hm, hn, ho⟩, hm', hn'⟩

end Sound

/-! ## What a barrier evaluates to -/

section Barriers

variable [Field K]

theorem finiteNumber_coordAt {xs : List (Flt K)} (h : ∀ x ∈ xs, FiniteNumber x) (i : ℕ) :
    FiniteNumber (coordAt xs i) := by
  unfold coordAt
  rw [List.getD_eq_getElem?_getD]
  cases hi : xs[i]? with
  | none => rfl
  | some x => exact h x (List.mem_of_getElem? hi)

/-- The coordinates of a list are its elements. -/
theorem forall_coordAt_iff {xs : List (Flt K)} {P : Flt K → Prop} :
    (∀ i < xs.length, P (coordAt xs i)) ↔ ∀ x ∈ xs, P x := by
  have hget : ∀ i, ∀ hi : i < xs.length, coordAt xs i = xs[i] := by
    intro i hi
    rw [coordAt, List.getD_eq_getElem?_getD, List.getElem?_eq_getElem hi, Option.getD_some]
  constructor
  · intro h x hx
    obtain ⟨i, hi, rfl⟩ := List.getElem_of_mem hx
    rw [← hget i hi]
    exact h i hi
  · intro h i hi
    rw [hget i hi]
    exact h _ (List.getElem_mem hi)

theorem finiteNumber_getD_iff {o : Option (Flt K)} :
    FiniteNumber (o.getD 0) ↔ ∀ x, o = some x → FiniteNumber x := by
  cases o with
  | none => exact ⟨fun _ _ h => (by cases h), fun _ => rfl⟩
  | some y => exact ⟨fun h x hx => Option.some.inj hx ▸ h, fun h => h y rfl⟩

theorem resize_eq_self {xs : List (Flt K)} {dim : ℕ} (h : xs.length = dim) :
    resize xs dim = xs := by
  rw [resize, ← h, Nat.sub_self, List.replicate_zero, List.append_nil, List.take_length]

variable [LinearOrder K]

theorem finiteNumber_dot {a b : List (Flt K)} (ha : ∀ x ∈ a, FiniteNumber x)
    (hb : ∀ x ∈ b, FiniteNumber x) : FiniteNumber (dot a b) := by
  apply Flt.isFinite_sum
  intro x hx
  rw [← List.map_uncurry_zip_eq_zipWith] at hx
  obtain ⟨⟨y, z⟩, hyz, rfl⟩ := List.mem_map.mp hx
  obtain ⟨hy, hz⟩ := List.of_mem_zip hyz
  exact Flt.isFinite_mul (ha y hy) (hb z hz)

/-- A quotient has a finite numerator when it is finite. -/
theorem finite_of_div {a b : Flt K} (h : FiniteNumber (a / b)) : FiniteNumber a := by
  cases a with
  | fin x => rfl
  | nan => cases h
  | negInf =>
    cases b with
    | fin y =>
      have hdiv : (Flt.negInf / Flt.fin y : Flt K) = if y < 0 then .posInf else .negInf := rfl
      rw [FiniteNumber, hdiv] at h
      split_ifs at h <;> cases h
    | nan | negInf | posInf => cases h
  | posInf =>
    cases b with
    | fin y =>
      have hdiv : (Flt.posInf / Flt.fin y : Flt K) = if y < 0 then .negInf else .posInf := rfl
      rw [FiniteNumber, hdiv] at h
      split_ifs at h <;> cases h
    | nan | negInf | posInf => cases h

theorem finite_of_mul_one {a : Flt K} (h : FiniteNumber (a * 1)) : FiniteNumber a := by
  cases a with
  | fin x => rfl
  | nan => cases h
  | negInf =>
    have hmul : (Flt.negInf * 1 : Flt K) = Flt.infOfSign (-1) := rfl
    rw [FiniteNumber, hmul, Flt.infOfSign] at h
    split_ifs at h <;> cases h
  | posInf =>
    have hmul : (Flt.posInf * 1 : Flt K) = Flt.infOfSign 1 := rfl
    rw [FiniteNumber, hmul, Flt.infOfSign] at h
    split_ifs at h <;> cases h

variable [IsStrictOrderedRing K] variable [HasSqrt K]

theorem finiteNumber_norm_iff {v : List (Flt K)} :
    FiniteNumber (norm v) ↔ ∀ x ∈ v, FiniteNumber x :=
  Flt.isFinite_sqrt_sum_sq_iff

/-- The distance to a centre is finite when the centre is. -/
theorem finiteNumber_dist_iff {center : List (Flt K)} {coord : ℕ → Flt K}
    (hcoord : ∀ i, FiniteNumber (coord i)) :
    FiniteNumber (Flt.sqrt (distSq center center.length coord)) ↔
      ∀ x ∈ center, FiniteNumber x := by
  have hsq : distSq center center.length coord = Flt.sum
      (((List.range center.length).map fun i => coord i - coordAt center i).map
        fun x => x * x) := by
    rw [distSq, List.map_map]
    rfl
  rw [hsq, ← forall_coordAt_iff]
  refine Flt.isFinite_sqrt_sum_sq_iff.trans ⟨fun h i hi => ?_, fun h x hx => ?_⟩
  · exact (Flt.finite_of_sub (h _ (List.mem_map_of_mem (List.mem_range.mpr hi)))).2
  · obtain ⟨i, hi, rfl⟩ := List.mem_map.mp hx
    exact Flt.isFinite_sub (hcoord i) (h i (List.mem_range.mp hi))

/-- What the normal of a plane is divided by. -/
theorem planeScale_pos {normal : List (Flt K)} (h : ∀ x ∈ normal, FiniteNumber x) :
    ∃ y : K, 0 < y ∧ Flt.max (norm normal) minPositive = .fin y := by
  obtain ⟨s, hs⟩ := Flt.isFinite_iff.1 (finiteNumber_norm_iff.2 h)
  refine ⟨max s (1 / 2 ^ 1022), lt_max_of_lt_right (one_div_pos.mpr (pow_pos two_pos 1022)), ?_⟩
  rw [hs, minPositive, Flt.max_fin]

/-- The numbers of a barrier are finite. -/
def Barrier.Finite : Barrier K → Prop
  | .norm center radius => (∀ x ∈ center, FiniteNumber x) ∧ FiniteNumber radius
  | .half normal rhs => (∀ x ∈ normal, FiniteNumber x) ∧ FiniteNumber rhs

/-- A barrier is built from finite numbers exactly when the coefficients that the shape uses are
finite. -/
theorem fromTerm_finite_iff {t : KeepOutTerm K} {dim : ℕ} (hdim : geometryDim t = .ok dim) :
    (Barrier.fromTerm t dim).Finite ↔ t.FiniteGeometry := by
  unfold Barrier.fromTerm KeepOutTerm.FiniteGeometry
  cases hshape : t.shape with
  | sphere =>
    constructor
    · rintro ⟨hcenter, hsum⟩
      obtain ⟨hradius, hmargin⟩ := Flt.finite_of_add hsum
      exact ⟨hmargin, hcenter, finiteNumber_getD_iff.1 hradius⟩
    · rintro ⟨hmargin, hcenter, hradius⟩
      exact ⟨hcenter, Flt.isFinite_add (finiteNumber_getD_iff.2 hradius) hmargin⟩
  | box =>
    constructor
    · rintro ⟨hcenter, hsum⟩
      obtain ⟨hextents, hmargin⟩ := Flt.finite_of_add hsum
      exact ⟨hmargin, hcenter, finiteNumber_norm_iff.1 hextents⟩
    · rintro ⟨hmargin, hcenter, hextents⟩
      exact ⟨hcenter, Flt.isFinite_add (finiteNumber_norm_iff.2 hextents) hmargin⟩
  | halfSpace =>
    dsimp only [Barrier.Finite]
    rw [resize_eq_self (by rw [List.length_map, geometryDim_halfSpace hshape hdim])]
    constructor
    · rintro ⟨hnormal, hrhs⟩
      obtain ⟨hmargin, hoffset⟩ := Flt.finite_of_sub (finite_of_div hrhs)
      refine ⟨hmargin, fun x hx => ?_, finiteNumber_getD_iff.1 hoffset⟩
      exact finite_of_div (hnormal _ (List.mem_map_of_mem hx))
    · rintro ⟨hmargin, hnormal, hoffset⟩
      obtain ⟨y, hy, hscale⟩ := planeScale_pos hnormal
      have hne : (Flt.fin y : Flt K) ≠ 0 := fun h => hy.ne' (Flt.fin.inj h)
      rw [hscale]
      refine ⟨fun x hx => ?_, ?_⟩
      · obtain ⟨z, hz, rfl⟩ := List.mem_map.mp hx
        exact Flt.isFinite_div (hnormal z hz) rfl hne
      · exact Flt.isFinite_div
          (Flt.isFinite_sub hmargin (finiteNumber_getD_iff.2 hoffset)) rfl hne

/-- The lists of a barrier have the length of the space. -/
def Barrier.Filled (dim : ℕ) : Barrier K → Prop
  | .norm center _ => center.length = dim
  | .half normal _ => normal.length = dim

omit [IsStrictOrderedRing K] in
theorem fromTerm_filled {t : KeepOutTerm K} {dim : ℕ} (hdim : geometryDim t = .ok dim) :
    (Barrier.fromTerm t dim).Filled dim := by
  unfold Barrier.fromTerm
  cases hshape : t.shape with
  | sphere => exact geometryDim_sphere hshape hdim
  | box => exact geometryDim_box hshape hdim
  | halfSpace =>
    show (resize _ dim).length = dim
    rw [resize_eq_self] <;> rw [List.length_map, geometryDim_halfSpace hshape hdim]

/-- A barrier of finite numbers has finite values, and no other barrier has. -/
theorem barrier_finite_iff {b : Barrier K} {dim : ℕ} (hb : b.Filled dim) :
    (∀ coord : ℕ → Flt K, (∀ i, FiniteNumber (coord i)) → FiniteNumber (b.staticH dim coord)) ↔
      b.Finite := by
  cases b with
  | norm center radius =>
    obtain rfl : center.length = dim := hb
    constructor
    · intro h
      obtain ⟨hdist, hradius⟩ := Flt.finite_of_sub (h 0 fun _ => rfl)
      exact ⟨(finiteNumber_dist_iff fun _ => rfl).1 hdist, hradius⟩
    · rintro ⟨hcenter, hradius⟩ coord hcoord
      exact Flt.isFinite_sub ((finiteNumber_dist_iff hcoord).2 hcenter) hradius
  | half normal rhs =>
    obtain rfl : normal.length = dim := hb
    constructor
    · intro h
      obtain ⟨hsum, hrhs⟩ := Flt.finite_of_sub (h 1 fun _ => rfl)
      have hall := List.all_eq_true.mp (Flt.finite_of_foldl_add hsum).2
      refine ⟨forall_coordAt_iff.1 fun i hi => ?_, hrhs⟩
      exact finite_of_mul_one (hall _ (List.mem_map_of_mem (List.mem_range.mpr hi)))
    · rintro ⟨hnormal, hrhs⟩ coord hcoord
      refine Flt.isFinite_sub (Flt.isFinite_sum fun x hx => ?_) hrhs
      obtain ⟨i, -, rfl⟩ := List.mem_map.mp hx
      exact Flt.isFinite_mul (finiteNumber_coordAt hnormal i) (hcoord i)

/-- **Main theorem.** The barrier of a term has finite values at all finite coordinates exactly
when the coefficients that its shape uses are finite. -/
theorem staticH_finite_iff {t : KeepOutTerm K} {dim : ℕ} (hdim : geometryDim t = .ok dim) :
    (∀ coord : ℕ → Flt K, (∀ i, FiniteNumber (coord i)) →
      FiniteNumber ((Barrier.fromTerm t dim).staticH dim coord)) ↔ t.FiniteGeometry :=
  (barrier_finite_iff (fromTerm_filled hdim)).trans (fromTerm_finite_iff hdim)

omit [IsStrictOrderedRing K] in
theorem barrierRhs_finite {b : Barrier K} {mode : ControlMode} {dim : ℕ} {k0 k1 dt h : Flt K}
    {p v a : List (Flt K)} (hk0 : FiniteNumber k0) (hk1 : FiniteNumber k1) (hdt : FiniteNumber dt)
    (hdt0 : dt ≠ 0) (hp : ∀ x ∈ p, FiniteNumber x) (hv : ∀ x ∈ v, FiniteNumber x)
    (ha : ∀ x ∈ a, FiniteNumber x) (hh : FiniteNumber h)
    (hcurv : ∀ hdot, FiniteNumber hdot → FiniteNumber (curvature b dim p v hdot)) :
    FiniteNumber (barrierRhs b mode dim k0 k1 dt p v a h) := by
  have ha' : ∀ x ∈ a.take dim, FiniteNumber x := fun x hx => ha x (List.mem_of_mem_take hx)
  have hv' : ∀ x ∈ v.take dim, FiniteNumber x := fun x hx => hv x (List.mem_of_mem_take hx)
  have hp' : ∀ x ∈ p.take dim, FiniteNumber x := fun x hx => hp x (List.mem_of_mem_take hx)
  have hdot := finiteNumber_dot ha' hv'
  cases mode with
  | effort =>
    refine Flt.isFinite_neg (Flt.isFinite_add (Flt.isFinite_add (hcurv _ hdot) ?_) ?_)
    · exact Flt.isFinite_mul hk1 hdot
    · exact Flt.isFinite_mul hk0 hh
  | velocity => exact Flt.isFinite_div (Flt.isFinite_neg hh) hdt hdt0
  | position => exact Flt.isFinite_sub (finiteNumber_dot ha' hp') hh

/-- The numbers of a row are finite. -/
def BarrierRow.Finite (row : BarrierRow K) : Prop :=
  (∀ x ∈ row.a, FiniteNumber x) ∧ FiniteNumber row.b ∧ FiniteNumber row.h

omit [HasSqrt K] in
/-- A distance that is not small does not vanish. -/
theorem ne_zero_of_not_small {d : Flt K} (h : ¬ d < .fin (1 / 10 ^ 9)) : d ≠ 0 := by
  rintro rfl
  exact h (one_div_pos.mpr (pow_pos (by norm_num) 9))

/-- A barrier of finite numbers has rows of finite numbers. -/
theorem evalBarrier_finite {b : Barrier K} {mode : ControlMode} {dim : ℕ} {k0 k1 dt : Flt K}
    {p v : List (Flt K)} (hb : b.Finite) (hfilled : b.Filled dim) (hk0 : FiniteNumber k0)
    (hk1 : FiniteNumber k1) (hdt : FiniteNumber dt) (hdt0 : dt ≠ 0)
    (hp : ∀ x ∈ p, FiniteNumber x) (hv : ∀ x ∈ v, FiniteNumber x)
    (hok : (evalBarrier b mode dim k0 k1 dt p v).ok = true) :
    (evalBarrier b mode dim k0 k1 dt p v).Finite := by
  have hv' : ∀ x ∈ v.take dim, FiniteNumber x := fun x hx => hv x (List.mem_of_mem_take hx)
  cases b with
  | norm center radius =>
    obtain rfl : center.length = dim := hfilled
    have hdist := (finiteNumber_dist_iff (finiteNumber_coordAt hp)).2 hb.1
    unfold evalBarrier at hok ⊢
    dsimp only at hok ⊢
    split_ifs at hok ⊢ with hsmall
    have hne := ne_zero_of_not_small hsmall
    have hh := Flt.isFinite_sub hdist hb.2
    have ha : ∀ x ∈ ((List.range center.length).map fun i => coordAt p i - coordAt center i).map
        (· / Flt.sqrt (distSq center center.length (coordAt p))), FiniteNumber x := by
      intro x hx
      rw [List.map_map] at hx
      obtain ⟨i, -, rfl⟩ := List.mem_map.mp hx
      exact Flt.isFinite_div (Flt.isFinite_sub (finiteNumber_coordAt hp i)
        (finiteNumber_coordAt hb.1 i)) hdist hne
    refine ⟨ha, barrierRhs_finite hk0 hk1 hdt hdt0 hp hv ha hh fun hdot hhdot => ?_, hh⟩
    exact Flt.isFinite_div (Flt.isFinite_sub (finiteNumber_dot hv' hv')
      (Flt.isFinite_mul hhdot hhdot)) hdist hne
  | half normal rhs =>
    have ha : ∀ x ∈ normal.take dim, FiniteNumber x :=
      fun x hx => hb.1 x (List.mem_of_mem_take hx)
    have hh := Flt.isFinite_sub (finiteNumber_dot hb.1 hp) hb.2
    exact ⟨ha, barrierRhs_finite hk0 hk1 hdt hdt0 hp hv ha hh fun _ _ => rfl, hh⟩

/-! ## The geometry of an accepted model -/

/-- The geometry of a model is sound: its coefficients are finite and proper, the safe pose is
finite, and whatever the shield evaluates at finite positions and velocities is a number. -/
structure CompiledSafetyModel.GeometryLaw (m : CompiledSafetyModel K) : Prop where
  coefficients : ∀ t ∈ m.keepOutTerms, t.FiniteGeometry ∧ t.ProperGeometry
  safePose : ∀ p, m.safePose = some p → ∀ x ∈ p, FiniteNumber x
  values : ∀ t ∈ m.keepOutTerms, ∀ dim, m.spatialDim = some dim →
    ∀ coord : ℕ → Flt K, (∀ i, FiniteNumber (coord i)) →
      FiniteNumber ((Barrier.fromTerm t dim).staticH dim coord)
  rows : ∀ t ∈ m.keepOutTerms, ∀ dim, m.spatialDim = some dim →
    ∀ (mode : ControlMode) (k0 k1 dt : Flt K) (p v : List (Flt K)), FiniteNumber k0 →
      FiniteNumber k1 → FiniteNumber dt → dt ≠ 0 → (∀ x ∈ p, FiniteNumber x) →
      (∀ x ∈ v, FiniteNumber x) →
      (evalBarrier (Barrier.fromTerm t dim) mode dim k0 k1 dt p v).ok = true →
      (evalBarrier (Barrier.fromTerm t dim) mode dim k0 k1 dt p v).Finite

/-- **Main theorem.** An accepted model has sound geometry exactly when the terms that were sent
have. -/
theorem fromProto_geometry_iff {p : Proto.CompiledSafetyModel K} {cap : ℕ}
    {m : CompiledSafetyModel K} (h : CompiledSafetyModel.fromProto p cap = .ok m) :
    m.GeometryLaw ↔ ∀ t ∈ p.keepOutTerms, t.Sound := by
  have hvalid := CompiledSafetyModel.fromProto_valid h
  have hterms := fromProto_keepOutTerms h
  constructor
  · intro hlaw t ht
    obtain ⟨t', ht', hdecode⟩ := exists_of_mapM hterms ht
    exact (decodeKeepOut_sound_iff hdecode).1 (hlaw.coefficients t' ht')
  · intro hsound
    have hcoeff : ∀ t ∈ m.keepOutTerms, t.FiniteGeometry ∧ t.ProperGeometry := by
      intro t ht
      obtain ⟨p', hp', hdecode⟩ := (mem_of_mapM hterms t).1 ht
      exact (decodeKeepOut_sound_iff hdecode).2 (hsound p' hp')
    have hdim : ∀ t ∈ m.keepOutTerms, ∀ dim, m.spatialDim = some dim →
        geometryDim t = .ok dim := by
      intro t ht dim hdim
      obtain ⟨d, hd, hd'⟩ := hvalid.keepOutTerms t ht
      obtain rfl : d = dim := Option.some.inj (hd'.symm.trans hdim)
      exact hd
    refine ⟨hcoeff, fun pose hpose => (hvalid.safePose pose hpose).1, ?_, ?_⟩
    · intro t ht dim hd
      exact (staticH_finite_iff (hdim t ht dim hd)).2 (hcoeff t ht).1
    · intro t ht dim hd mode k0 k1 dt p v hk0 hk1 hdt hdt0 hp hv hok
      have hfinite := (fromTerm_finite_iff (hdim t ht dim hd)).2 (hcoeff t ht).1
      exact evalBarrier_finite hfinite (fromTerm_filled (hdim t ht dim hd)) hk0 hk1 hdt hdt0
        hp hv hok

omit [IsStrictOrderedRing K] in
/-- With every coefficient replaced by NaN, an accepted model is accepted, and its geometry is not
sound. -/
theorem fromProto_nanGeometry {p : Proto.CompiledSafetyModel K} {cap : ℕ}
    {m : CompiledSafetyModel K} (h : CompiledSafetyModel.fromProto p cap = .ok m)
    (hterms : m.keepOutTerms ≠ []) :
    CompiledSafetyModel.fromProto (p.mapGeometry fun _ => .nan) cap =
        .ok (m.mapGeometry fun _ => .nan) ∧
      ¬ (m.mapGeometry fun _ => .nan).GeometryLaw := by
  refine ⟨by rw [fromProto_mapGeometry, h]; rfl, fun hlaw => ?_⟩
  obtain ⟨t, ht⟩ := List.exists_mem_of_ne_nil _ hterms
  have hmargin := (hlaw.coefficients _ (List.mem_map_of_mem ht)).1.1
  cases hmargin

end Barriers

/-! ## A crater without numbers -/

open SafetyCore in
theorem fromProto_geometry_iff_crater :
    CompiledSafetyModel.fromProto sphereProto 0 = .ok sphereModel ∧
      (sphereModel.GeometryLaw ↔ ∀ t ∈ sphereProto.keepOutTerms, t.Sound) :=
  have h : CompiledSafetyModel.fromProto sphereProto 0 = .ok sphereModel := rfl
  ⟨h, fromProto_geometry_iff h⟩

/-- `sphereProto` with NaN for every coefficient. -/
def blankProto : Proto.CompiledSafetyModel ℚ := SafetyCore.sphereProto.mapGeometry fun _ => .nan

/-- The decoded form of `blankProto`. -/
def blankModel : CompiledSafetyModel ℚ := SafetyCore.sphereModel.mapGeometry fun _ => .nan

/-- **Counterexample.** A crater without a single number is accepted, and the shield certifies a
rest one metre from where its middle was. -/
theorem blankProto_certified :
    (¬ ∀ (p : Proto.CompiledSafetyModel ℚ) (cap : ℕ) (m : CompiledSafetyModel ℚ),
      CompiledSafetyModel.fromProto p cap = .ok m → m.GeometryLaw) ∧
    CompiledSafetyModel.fromProto blankProto 0 = .ok blankModel ∧
    ∃ out, (Shield.new blankModel.keepOutTerms 1 .default (.fin 1) blankModel.actionLimits).solveMode
      .velocity [.fin 1] [.fin 0] [.fin 0] = .ok out ∧ out.certified = true := by
  have hterms : SafetyCore.sphereModel.keepOutTerms ≠ [] := List.cons_ne_nil _ _
  obtain ⟨haccepted, hunsound⟩ := fromProto_nanGeometry
    (show CompiledSafetyModel.fromProto SafetyCore.sphereProto 0 = .ok SafetyCore.sphereModel
      from rfl) hterms
  have hany : ((Shield.new blankModel.keepOutTerms 1 .default (.fin 1)
      blankModel.actionLimits).solveMode .velocity [.fin 1] [.fin 0] [.fin 0]).toOption.any
        (fun out => out.certified) = true := by
    decide +kernel
  exact ⟨fun hclaim => hunsound (hclaim _ 0 _ haccepted), haccepted, exists_ok_of_any hany⟩

end AstroMine.Guard
