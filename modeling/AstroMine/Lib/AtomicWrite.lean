import AstroMine.Lib.Transition
import Mathlib.Logic.Function.Basic

/-!
# Files written beside their place and renamed into it

Many workers share a directory. A worker that finds no file at its path fetches the contents,
writes them to a scratch file of its own, and renames that file into place; a worker that finds a
file reads it. The steps of the workers interleave in any order, a write may stop half-way, and a
worker may fail or die at any point.

Results:
* `run_sound`: a file in place is whole, whatever the interleaving; a worker that returns returns
  what belongs at its path; and no rename and no read misses its file.
* `run_present`: a path once filled stays filled, and who comes later fetches nothing.
-/

namespace AstroMine.AtomicWrite

/-- Where each worker puts its file: its path, which others may share, and a scratch file of its
own. -/
structure Layout (W P : Type*) where
  path : W → P
  scratch : W → P
  scratch_ne_path : ∀ w w', scratch w ≠ path w'
  scratch_injective : Function.Injective scratch

/-- Why a worker gives up: the source has failed it, it was interrupted, or a file that it relies on
is not there. -/
inductive Failure (ε : Type*)
  | source (e : ε)
  | aborted
  | noFile

/-- How far a worker is. -/
inductive Stage (V ε : Type*)
  | idle
  | reading
  | missing
  | writing (v : V)
  | written (v : V)
  | returned (v : V)
  | failed (e : Failure ε)
  | dead

/-- The directory and the workers. -/
structure State (W P V ε : Type*) where
  files : P → Option V
  stage : W → Stage V ε

/-- What a worker does next. `writePart` leaves any contents in its scratch file. -/
inductive Action (W V : Type*)
  | start (w : W)
  | read (w : W)
  | fetch (w : W)
  | writePart (w : W) (v : V)
  | writeAll (w : W)
  | replace (w : W)
  | abort (w : W)
  | crash (w : W)

variable {W P V ε : Type*}

namespace State

variable (s : State W P V ε)

/-- The worker moves on. -/
def move [DecidableEq W] (w : W) (stage : Stage V ε) : State W P V ε :=
  { s with stage := Function.update s.stage w stage }

/-- A file is written, or removed. -/
def store [DecidableEq P] (p : P) (v : Option V) : State W P V ε :=
  { s with files := Function.update s.files p v }

@[simp]
theorem files_move [DecidableEq W] (w : W) (stage : Stage V ε) :
    (s.move w stage).files = s.files := rfl

@[simp]
theorem stage_store [DecidableEq P] (p : P) (v : Option V) : (s.store p v).stage = s.stage := rfl

theorem stage_move [DecidableEq W] (w w' : W) (stage : Stage V ε) :
    (s.move w stage).stage w' = if w' = w then stage else s.stage w' :=
  Function.update_apply _ _ _ _

theorem files_store [DecidableEq P] (p p' : P) (v : Option V) :
    (s.store p v).files p' = if p' = p then v else s.files p' :=
  Function.update_apply _ _ _ _

end State

variable [DecidableEq W] [DecidableEq P]

/-- One step of one worker; `none` where it cannot be taken. `content` is what the source has for
a worker. -/
def step (L : Layout W P) (content : W → Except ε V) (s : State W P V ε) :
    Action W V → Option (State W P V ε)
  | .start w =>
    match s.stage w with
    | .idle => some (s.move w (if (s.files (L.path w)).isSome then .reading else .missing))
    | _ => none
  | .read w =>
    match s.stage w with
    | .reading =>
      match s.files (L.path w) with
      | some v => some (s.move w (.returned v))
      | none => some (s.move w (.failed .noFile))
    | _ => none
  | .fetch w =>
    match s.stage w with
    | .missing =>
      match content w with
      | .ok v => some (s.move w (.writing v))
      | .error e => some (s.move w (.failed (.source e)))
    | _ => none
  | .writePart w part =>
    match s.stage w with
    | .writing v => some ((s.store (L.scratch w) (some part)).move w (.writing v))
    | _ => none
  | .writeAll w =>
    match s.stage w with
    | .writing v => some ((s.store (L.scratch w) (some v)).move w (.written v))
    | _ => none
  | .replace w =>
    match s.stage w with
    | .written v =>
      match s.files (L.scratch w) with
      | some u =>
        some (((s.store (L.path w) (some u)).store (L.scratch w) none).move w (.returned v))
      | none => some (s.move w (.failed .noFile))
    | _ => none
  | .abort w =>
    match s.stage w with
    | .writing _ => some ((s.store (L.scratch w) none).move w (.failed .aborted))
    | .written _ => some ((s.store (L.scratch w) none).move w (.failed .aborted))
    | _ => none
  | .crash w =>
    match s.stage w with
    | .returned _ => none
    | .failed _ => none
    | _ => some (s.move w .dead)

/-- An empty directory, and workers that have not begun. -/
def init : State W P V ε := ⟨fun _ => none, fun _ => .idle⟩

section Sound

variable {L : Layout W P} {content : W → Except ε V} {s t : State W P V ε} {a : Action W V} {w : W}

/-- What a worker can do, and the state after it. -/
inductive Does (L : Layout W P) (content : W → Except ε V) (s : State W P V ε) (w : W) :
    State W P V ε → Prop
  | present : s.stage w = .idle → (s.files (L.path w)).isSome →
    Does L content s w (s.move w .reading)
  | absent : s.stage w = .idle → ¬ (s.files (L.path w)).isSome →
    Does L content s w (s.move w .missing)
  | hit {v : V} : s.stage w = .reading → s.files (L.path w) = some v →
    Does L content s w (s.move w (.returned v))
  | lost : s.stage w = .reading → s.files (L.path w) = none →
    Does L content s w (s.move w (.failed .noFile))
  | fetched {v : V} : s.stage w = .missing → content w = .ok v →
    Does L content s w (s.move w (.writing v))
  | refused {e : ε} : s.stage w = .missing → content w = .error e →
    Does L content s w (s.move w (.failed (.source e)))
  | wrotePart {v part : V} : s.stage w = .writing v →
    Does L content s w ((s.store (L.scratch w) (some part)).move w (.writing v))
  | wroteAll {v : V} : s.stage w = .writing v →
    Does L content s w ((s.store (L.scratch w) (some v)).move w (.written v))
  | renamed {v u : V} : s.stage w = .written v → s.files (L.scratch w) = some u →
    Does L content s w
      (((s.store (L.path w) (some u)).store (L.scratch w) none).move w (.returned v))
  | torn {v : V} : s.stage w = .written v → s.files (L.scratch w) = none →
    Does L content s w (s.move w (.failed .noFile))
  | aborted {v : V} : s.stage w = .writing v ∨ s.stage w = .written v →
    Does L content s w ((s.store (L.scratch w) none).move w (.failed .aborted))
  | crashed : (∀ v, s.stage w ≠ .returned v) → (∀ e, s.stage w ≠ .failed e) →
    Does L content s w (s.move w .dead)

/-- Every step is something that one worker does. -/
theorem does_of_step (h : step L content s a = some t) : ∃ w, Does L content s w t := by
  cases a with
  | start w =>
    rw [step] at h
    split at h
    · next hstage =>
      obtain rfl := Option.some.inj h
      split_ifs with hsome
      · exact ⟨w, .present hstage hsome⟩
      · exact ⟨w, .absent hstage hsome⟩
    · cases h
  | read w =>
    rw [step] at h
    split at h
    · next hstage =>
      split at h
      · next v hv =>
        obtain rfl := Option.some.inj h
        exact ⟨w, .hit hstage hv⟩
      · next hnone =>
        obtain rfl := Option.some.inj h
        exact ⟨w, .lost hstage hnone⟩
    · cases h
  | fetch w =>
    rw [step] at h
    split at h
    · next hstage =>
      split at h
      · next v hv =>
        obtain rfl := Option.some.inj h
        exact ⟨w, .fetched hstage hv⟩
      · next e he =>
        obtain rfl := Option.some.inj h
        exact ⟨w, .refused hstage he⟩
    · cases h
  | writePart w part =>
    rw [step] at h
    split at h
    · next v hstage =>
      obtain rfl := Option.some.inj h
      exact ⟨w, .wrotePart hstage⟩
    · cases h
  | writeAll w =>
    rw [step] at h
    split at h
    · next v hstage =>
      obtain rfl := Option.some.inj h
      exact ⟨w, .wroteAll hstage⟩
    · cases h
  | replace w =>
    rw [step] at h
    split at h
    · next v hstage =>
      split at h
      · next u hu =>
        obtain rfl := Option.some.inj h
        exact ⟨w, .renamed hstage hu⟩
      · next hnone =>
        obtain rfl := Option.some.inj h
        exact ⟨w, .torn hstage hnone⟩
    · cases h
  | abort w =>
    rw [step] at h
    split at h
    · next v hstage =>
      obtain rfl := Option.some.inj h
      exact ⟨w, .aborted (.inl hstage)⟩
    · next v hstage =>
      obtain rfl := Option.some.inj h
      exact ⟨w, .aborted (.inr hstage)⟩
    · cases h
  | crash w =>
    rw [step] at h
    split at h
    · cases h
    · cases h
    · next hreturned hfailed =>
      obtain rfl := Option.some.inj h
      exact ⟨w, .crashed hreturned hfailed⟩

/-! ## Safety -/

/-- The contents belong at the path: the source has them for a worker with this path. -/
def Belongs (L : Layout W P) (content : W → Except ε V) (p : P) (v : V) : Prop :=
  ∃ w, L.path w = p ∧ content w = .ok v

/-- What the stage of a worker says of the directory. -/
def StageOk (L : Layout W P) (content : W → Except ε V) (files : P → Option V) (w : W) :
    Stage V ε → Prop
  | .reading => (files (L.path w)).isSome
  | .writing v => content w = .ok v
  | .written v => content w = .ok v ∧ files (L.scratch w) = some v
  | .returned v => Belongs L content (L.path w) v ∧ (files (L.path w)).isSome
  | .failed (.source e) => content w = .error e
  | .failed .noFile => False
  | _ => True

/-- The directory is sound: a file that is no scratch file belongs where it is, and every worker is
right about the directory. -/
structure Sound (L : Layout W P) (content : W → Except ε V) (s : State W P V ε) : Prop where
  files : ∀ p v, (∀ w, p ≠ L.scratch w) → s.files p = some v → Belongs L content p v
  stage : ∀ w, StageOk L content s.files w (s.stage w)

omit [DecidableEq W] [DecidableEq P] in
/-- What is right about the directory stays right while no path is emptied and the worker's own
scratch file is left alone. -/
theorem StageOk.mono {files files' : P → Option V} {stage : Stage V ε}
    (h : StageOk L content files w stage)
    (hpath : (files (L.path w)).isSome → (files' (L.path w)).isSome)
    (hscratch : files' (L.scratch w) = files (L.scratch w)) :
    StageOk L content files' w stage := by
  cases stage with
  | reading => exact hpath h
  | written v => exact ⟨h.1, hscratch.trans h.2⟩
  | returned v => exact ⟨h.1, hpath h.2⟩
  | failed e =>
    cases e with
    | noFile => exact h.elim
    | _ => exact h
  | _ => exact h

omit [DecidableEq W] [DecidableEq P] in
theorem Sound.stage_of_eq (h : Sound L content s) {stage : Stage V ε} (hstage : s.stage w = stage) :
    StageOk L content s.files w stage := hstage ▸ h.stage w

omit [DecidableEq W] [DecidableEq P] in
theorem Sound.files_path (h : Sound L content s) {v : V} (hv : s.files (L.path w) = some v) :
    Belongs L content (L.path w) v :=
  h.files (L.path w) v (fun w' => (L.scratch_ne_path w' w).symm) hv

omit [DecidableEq P] in
/-- A worker that moves on without touching a file. -/
theorem Sound.move (h : Sound L content s) {stage : Stage V ε}
    (hstage : StageOk L content s.files w stage) : Sound L content (s.move w stage) where
  files := h.files
  stage w' := by
    rw [State.stage_move]
    split_ifs with hw
    · exact hw ▸ hstage
    · exact h.stage w'

omit [DecidableEq W] in
theorem files_store_scratch (v : Option V) (w w' : W) :
    (s.store (L.scratch w) v).files (L.path w') = s.files (L.path w') := by
  rw [State.files_store, if_neg (L.scratch_ne_path w w').symm]

/-- A worker that writes or removes its own scratch file. -/
theorem Sound.store_scratch (h : Sound L content s) (v : Option V) {stage : Stage V ε}
    (hstage : StageOk L content (s.store (L.scratch w) v).files w stage) :
    Sound L content ((s.store (L.scratch w) v).move w stage) where
  files p u hp hu := by
    rw [State.files_move, State.files_store, if_neg (hp w)] at hu
    exact h.files p u hp hu
  stage w' := by
    rw [State.stage_move]
    split_ifs with hw
    · exact hw ▸ hstage
    · refine (h.stage w').mono ?_ ?_
      · rw [State.files_move, files_store_scratch]
        exact id
      · rw [State.files_move, State.files_store, if_neg fun he => hw (L.scratch_injective he)]

omit [DecidableEq W] in
/-- The path of a worker is filled, and the other paths are as they were. -/
theorem files_rename (u : V) (w w' : W) :
    ((s.store (L.path w) (some u)).store (L.scratch w) none).files (L.path w') =
      if L.path w' = L.path w then some u else s.files (L.path w') := by
  rw [files_store_scratch, State.files_store]

/-- A worker that renames its whole scratch file into place. -/
theorem Sound.rename (h : Sound L content s) {v : V} (hcontent : content w = .ok v) :
    Sound L content
      (((s.store (L.path w) (some v)).store (L.scratch w) none).move w (.returned v)) := by
  have hbelongs : Belongs L content (L.path w) v := ⟨w, rfl, hcontent⟩
  refine ⟨fun p u hp hu => ?_, fun w' => ?_⟩
  · rw [State.files_move, State.files_store, if_neg (hp w), State.files_store] at hu
    split_ifs at hu with hpath
    · rw [hpath, ← Option.some.inj hu]
      exact hbelongs
    · exact h.files p u hp hu
  · rw [State.stage_move]
    split_ifs with hw
    · subst hw
      refine ⟨hbelongs, ?_⟩
      rw [State.files_move, files_rename, if_pos rfl]
      rfl
    · refine (h.stage w').mono ?_ ?_
      · rw [State.files_move, files_rename]
        split_ifs
        · exact fun _ => rfl
        · exact id
      · rw [State.files_move, State.files_store, if_neg fun he => hw (L.scratch_injective he),
          State.files_store, if_neg (L.scratch_ne_path w' w)]

/-- **Step.** Whatever a worker does, the directory stays sound. -/
theorem Sound.does (h : Sound L content s) (hdoes : Does L content s w t) : Sound L content t := by
  cases hdoes with
  | present _ hsome => exact h.move hsome
  | absent _ _ => exact h.move trivial
  | hit hstage hv => exact h.move ⟨h.files_path hv, h.stage_of_eq hstage⟩
  | lost hstage hnone =>
    have hsome : (s.files (L.path w)).isSome := h.stage_of_eq hstage
    rw [hnone] at hsome
    cases hsome
  | fetched _ hv => exact h.move hv
  | refused _ he => exact h.move he
  | wrotePart hstage => exact h.store_scratch _ (h.stage_of_eq hstage)
  | wroteAll hstage =>
    have hcontent : content w = .ok _ := h.stage_of_eq hstage
    exact h.store_scratch _ ⟨hcontent, by rw [State.files_store, if_pos rfl]⟩
  | renamed hstage hu =>
    obtain ⟨hcontent, hscratch⟩ := h.stage_of_eq hstage
    obtain rfl := Option.some.inj (hscratch.symm.trans hu)
    exact h.rename hcontent
  | torn hstage hnone =>
    obtain ⟨-, hscratch⟩ := h.stage_of_eq hstage
    rw [hnone] at hscratch
    cases hscratch
  | aborted _ => exact h.store_scratch _ trivial
  | crashed _ _ => exact h.move trivial

omit [DecidableEq W] [DecidableEq P] in
theorem init_sound : Sound L content init where
  files _ _ _ hnone := nomatch hnone
  stage _ := trivial

/-- **Run.** In every interleaving the directory stays sound. -/
theorem Sound.run {as : List (Action W V)} (h : Sound L content s)
    (hrun : Transition.run (step L content) s as = some t) : Sound L content t := by
  refine Transition.run_invariant (Sound L content) (fun s a t hs hstep => ?_) h hrun
  obtain ⟨_, hdoes⟩ := does_of_step hstep
  exact hs.does hdoes

theorem run_sound {as : List (Action W V)}
    (hrun : Transition.run (step L content) init as = some s) : Sound L content s :=
  init_sound.run hrun

/-! ## A path that is filled -/

/-- The worker has not gone to the source. -/
def Stage.Local : Stage V ε → Prop
  | .idle => True
  | .reading => True
  | .returned _ => True
  | .dead => True
  | _ => False

/-- **Step.** No path is emptied. -/
theorem Does.present_of_present (hdoes : Does L content s w t) {w' : W}
    (h : (s.files (L.path w')).isSome) : (t.files (L.path w')).isSome := by
  cases hdoes with
  | renamed _ _ =>
    rw [State.files_move, files_rename]
    split_ifs
    · rfl
    · exact h
  | wrotePart _ =>
    rw [State.files_move, files_store_scratch]
    exact h
  | wroteAll _ =>
    rw [State.files_move, files_store_scratch]
    exact h
  | aborted _ =>
    rw [State.files_move, files_store_scratch]
    exact h
  | _ => exact h

/-- **Step.** A worker whose path is filled does not go to the source. -/
theorem Does.local_of_present (hdoes : Does L content s w t) {w' : W}
    (h : (s.files (L.path w')).isSome) (hlocal : (s.stage w').Local) : (t.stage w').Local := by
  -- Who is not at work keeps its stage; who is at work has its path filled.
  by_cases hw : w' = w
  · subst hw
    cases hdoes with
    | absent _ habsent => exact absurd h habsent
    | lost _ hnone =>
      rw [hnone] at h
      cases h
    | fetched hstage _ | refused hstage _ | wrotePart hstage | wroteAll hstage | renamed hstage _
      | torn hstage _ =>
      rw [hstage] at hlocal
      exact hlocal.elim
    | aborted hstage =>
      rcases hstage with hstage | hstage <;>
      · rw [hstage] at hlocal
        exact hlocal.elim
    | present _ _ | hit _ _ | crashed _ _ =>
      rw [State.stage_move, if_pos rfl]
      exact trivial
  · cases hdoes <;>
    · rw [State.stage_move, if_neg hw]
      exact hlocal

/-- **Run.** A path once filled stays filled, and a worker that had not gone to the source by then
never does. -/
theorem run_present {as : List (Action W V)} (hrun : Transition.run (step L content) s as = some t)
    (h : (s.files (L.path w)).isSome) (hlocal : (s.stage w).Local) :
    (t.files (L.path w)).isSome ∧ (t.stage w).Local := by
  refine Transition.run_invariant
    (fun s : State W P V ε => (s.files (L.path w)).isSome ∧ (s.stage w).Local) ?_ ⟨h, hlocal⟩ hrun
  intro s _ t hs hstep
  obtain ⟨_, hdoes⟩ := does_of_step hstep
  exact ⟨hdoes.present_of_present hs.1, hdoes.local_of_present hs.1 hs.2⟩

end Sound

end AstroMine.AtomicWrite
