/-
PixelTurtle.Proofs.Nesting — neither pass can hang.

Both passes call themselves, and are given a depth that bounds how often. Here
their recursions stand without a bound:

* `Collapsing.Yields`, `Folding.Yields` — what a call comes to. A derivation is a
  recursion that ends; `Collapsing.Yields.exists_depth` and
  `Folding.Yields.exists_depth` say that the bounded recursion comes to the same
  once its depth is large enough.
* `Collapsing.Nests`, `Folding.Nests` — which call makes which. Every nested call
  has one more branch marked than the call that makes it: as visited, or as being
  followed.
* `Collapsing.CalledAt`, `Folding.CalledAt` — the calls that a pass over a code
  makes, with how deep they are nested. There are eight branches to a line, and
  so no call is nested deeper than that.
* `Code.passes_terminate` — both passes end, with what they give within their
  depths.
-/
import PixelTurtle.Proofs.Folding

namespace PixelTurtle

open StateTransition

/-! ## Collapsing -/

/-- The actions of a code in the order in which they are redirected. -/
def Code.slots (code : Code) : List (Nat × Slot) :=
  (List.range code.size).flatMap fun line => Slot.both.map (Prod.mk line)

namespace Collapsing

/-- Begin on a branch. -/
def visit (s : Collapsing) (branch : Branch) : Collapsing :=
  { s with visited := branch :: s.visited }

/-- What redirecting an action comes to, however deep it has to recurse. -/
inductive Yields : Collapsing → Nat → Slot → Collapsing → Prop where
  | stays {s : Collapsing} {line : Nat} {slot : Slot} (h : s.placeholder? line slot = none) :
      Yields s line slot s
  | again {s : Collapsing} {line : Nat} {slot : Slot} {branch : Branch}
      (h : s.placeholder? line slot = some branch) (hseen : branch ∈ s.visited) :
      Yields s line slot (s.follow line slot branch.line)
  | enters {s s₁ s₂ : Collapsing} {line : Nat} {slot : Slot} {branch : Branch}
      (h : s.placeholder? line slot = some branch) (hnew : branch ∉ s.visited)
      (white : Yields (s.visit branch) branch.line .white s₁)
      (color : Yields s₁ branch.line .color s₂) :
      Yields s line slot (s₂.follow line slot branch.line)

/-- What redirecting the actions of a list, in order, comes to. -/
inductive YieldsAll : Collapsing → List (Nat × Slot) → Collapsing → Prop where
  | nil {s : Collapsing} : YieldsAll s [] s
  | cons {s s₁ s₂ : Collapsing} {line : Nat} {slot : Slot} {rest : List (Nat × Slot)}
      (first : Yields s line slot s₁) (others : YieldsAll s₁ rest s₂) :
      YieldsAll s ((line, slot) :: rest) s₂

/-- A call of the recursion: redirect one action. -/
structure Call where
  state : Collapsing
  line : Nat
  slot : Slot

/-- The one call makes the other, directly. -/
inductive Nests : Call → Call → Prop where
  | white {s : Collapsing} {line : Nat} {slot : Slot} {branch : Branch}
      (h : s.placeholder? line slot = some branch) (hnew : branch ∉ s.visited) :
      Nests ⟨s, line, slot⟩ ⟨s.visit branch, branch.line, .white⟩
  | color {s s₁ : Collapsing} {line : Nat} {slot : Slot} {branch : Branch}
      (h : s.placeholder? line slot = some branch) (hnew : branch ∉ s.visited)
      (white : Yields (s.visit branch) branch.line .white s₁) :
      Nests ⟨s, line, slot⟩ ⟨s₁, branch.line, .color⟩

/-- The pass over a code makes a call, nested in as many others. -/
inductive CalledAt (code : Code) : Nat → Call → Prop where
  | outer {before after : List (Nat × Slot)} {line : Nat} {slot : Slot} {s : Collapsing}
      (hslots : code.slots = before ++ (line, slot) :: after)
      (hs : YieldsAll ⟨code, []⟩ before s) : CalledAt code 0 ⟨s, line, slot⟩
  | nested {depth : Nat} {call call' : Call} (h : CalledAt code depth call)
      (hnests : Nests call call') : CalledAt code (depth + 1) call'

variable {code : Code} {s s' : Collapsing} {line : Nat} {slot : Slot}

/-- A call marks branches and unmarks none. -/
theorem Yields.suffix (h : Yields s line slot s') : s.visited <:+ s'.visited := by
  induction h with
  | stays _ => exact List.suffix_rfl
  | again _ _ => exact List.suffix_rfl
  | enters _ _ _ _ hwhite hcolor => exact (List.suffix_cons _ _).trans (hwhite.trans hcolor)

/-- A nested call has a branch marked that was not. -/
theorem Nests.exists_new {call call' : Call} (h : Nests call call') :
    ∃ branch ∉ call.state.visited, branch :: call.state.visited <:+ call'.state.visited := by
  cases h with
  | white _ hnew => exact ⟨_, hnew, List.suffix_rfl⟩
  | color _ hnew white => exact ⟨_, hnew, white.suffix⟩

/-- With enough depth, the bounded recursion comes to what the unbounded one
does. -/
theorem Yields.exists_depth (h : Yields s line slot s') :
    ∃ least, ∀ depth, least ≤ depth → redirect depth s line slot = s' := by
  induction h with
  | stays h =>
    refine ⟨1, fun depth hdepth => ?_⟩
    obtain ⟨depth, rfl⟩ := Nat.exists_eq_add_of_le' hdepth
    simp only [redirect, h]
  | again h hseen =>
    refine ⟨1, fun depth hdepth => ?_⟩
    obtain ⟨depth, rfl⟩ := Nat.exists_eq_add_of_le' hdepth
    simp only [redirect, h, List.contains_iff_mem, if_pos hseen]
  | enters h hnew _ _ hwhite hcolor =>
    obtain ⟨least₁, hwhite⟩ := hwhite
    obtain ⟨least₂, hcolor⟩ := hcolor
    refine ⟨max least₁ least₂ + 1, fun depth hdepth => ?_⟩
    obtain ⟨depth, rfl⟩ : ∃ d, depth = d + 1 := ⟨depth - 1, by omega⟩
    simp only [visit] at hwhite
    simp only [redirect, h, List.contains_iff_mem, if_neg hnew, hwhite depth (by omega),
      hcolor depth (by omega)]

/-- A call comes to one thing. -/
theorem Yields.unique {s'' : Collapsing} (h : Yields s line slot s')
    (h' : Yields s line slot s'') : s' = s'' := by
  obtain ⟨least, hleast⟩ := h.exists_depth
  obtain ⟨least', hleast'⟩ := h'.exists_depth
  rw [← hleast _ (Nat.le_max_left _ _), hleast' _ (Nat.le_max_right _ _)]

theorem YieldsAll.unique {slots : List (Nat × Slot)} {s'' : Collapsing}
    (h : YieldsAll s slots s') (h' : YieldsAll s slots s'') : s' = s'' := by
  induction h with
  | nil =>
    cases h' with
    | nil => rfl
  | cons first _ ih =>
    cases h' with
    | cons first' others' =>
      obtain rfl := first.unique first'
      exact ih others'

/-- The placeholder that an action jumps onto lies on the walk of its target. -/
theorem Of.reaches (hof : Of code s) {branch : Branch}
    (h : s.placeholder? line slot = some branch) :
    Reaches code.skip? (code.action line slot).target (.jump branch.line) ∧
      code.isPlaceholder branch.line = true := by
  rcases placeholder?_cases hof line slot with ⟨hnone, -⟩ | ⟨branch', hsome, htarget, hp⟩
  · simp [hnone] at h
  · obtain rfl : branch' = branch := Option.some.inj (hsome.symm.trans h)
    exact ⟨htarget ▸ hof.target line slot, hp⟩

theorem Yields.of (h : Yields s line slot s') (hof : Of code s) (hline : line < code.size) :
    Of code s' := by
  induction h with
  | stays _ => exact hof
  | again h _ =>
    obtain ⟨hwalk, hp⟩ := hof.reaches h
    exact hof.follow hline hwalk hp
  | enters h hnew _ _ hwhite hcolor =>
    obtain ⟨hwalk, hp⟩ := hof.reaches h
    have hlt := Code.lt_size_of_isPlaceholder hp
    exact (hcolor (hwhite (hof.visit hlt hnew) hlt) hlt).follow hline hwalk hp

/-- The bounded recursion is deep enough where its depth makes up for the branches
that are not marked yet. -/
theorem yields_redirect :
    ∀ (depth : Nat) (s : Collapsing) (line : Nat) (slot : Slot), Of code s → line < code.size →
      code.branchCount < depth + s.visited.length → Yields s line slot (redirect depth s line slot)
  | 0, s, line, slot, hof, _, hdepth => by
      have hle : s.visited.length ≤ code.branchCount := Branch.length_le hof.nodup hof.lines
      omega
  | depth + 1, s, line, slot, hof, hline, hdepth => by
      cases hbranch : s.placeholder? line slot with
      | none =>
        simp only [redirect, hbranch]
        exact .stays hbranch
      | some branch =>
        simp only [redirect, hbranch, List.contains_iff_mem]
        split
        · next hseen => exact .again hbranch hseen
        · next hnew =>
          have hlt := Code.lt_size_of_isPlaceholder (hof.reaches hbranch).2
          have hvisit := hof.visit hlt hnew
          have hwhite := yields_redirect depth (s.visit branch) branch.line .white hvisit hlt
            (by simp only [visit, List.length_cons]; omega)
          have hgrows := hwhite.suffix.length_le
          simp only [visit, List.length_cons] at hgrows
          exact .enters hbranch hnew hwhite (yields_redirect depth _ branch.line .color
            (hwhite.of hvisit hlt) hlt (by simp only [visit]; omega))

theorem yieldsAll_foldl :
    ∀ (lines : List Nat) (s : Collapsing), Of code s → (∀ line ∈ lines, line < code.size) →
      YieldsAll s (lines.flatMap fun line => Slot.both.map (Prod.mk line))
        (lines.foldl (redirectLine (code.branchCount + 1)) s)
  | [], _, _, _ => .nil
  | line :: rest, s, hof, hlines => by
      rw [List.forall_mem_cons] at hlines
      have hwhite := yields_redirect (code.branchCount + 1) s line .white hof hlines.1 (by omega)
      have hof₁ := hwhite.of hof hlines.1
      have hcolor := yields_redirect (code.branchCount + 1) _ line .color hof₁ hlines.1 (by omega)
      exact .cons hwhite (.cons hcolor (yieldsAll_foldl rest _ (hcolor.of hof₁ hlines.1) hlines.2))

theorem YieldsAll.of {slots : List (Nat × Slot)} (h : YieldsAll s slots s') (hof : Of code s)
    (hlines : ∀ entry ∈ slots, entry.1 < code.size) : Of code s' := by
  induction h with
  | nil => exact hof
  | cons first _ ih =>
    rw [List.forall_mem_cons] at hlines
    exact ih (first.of hof hlines.1) hlines.2

theorem lt_size_of_mem_slots {entry : Nat × Slot} (h : entry ∈ code.slots) :
    entry.1 < code.size := by
  obtain ⟨line, hline, hentry⟩ := List.mem_flatMap.mp h
  obtain ⟨slot, -, rfl⟩ := List.mem_map.mp hentry
  exact List.mem_range.mp hline

/-- Every call of a pass is for a line of its code, and has a branch marked for
every call that it is nested in. -/
theorem CalledAt.marked {depth : Nat} {call : Call} (h : CalledAt code depth call) :
    Of code call.state ∧ call.line < code.size ∧ depth ≤ call.state.visited.length := by
  induction h with
  | @outer before after line slot s hslots hs =>
    have hmem : ∀ entry ∈ before ++ (line, slot) :: after, entry.1 < code.size :=
      hslots ▸ fun entry => lt_size_of_mem_slots
    refine ⟨hs.of (.start code) fun entry h => hmem entry (List.mem_append_left _ h), ?_, ?_⟩
    · exact hmem (line, slot) (by simp)
    · exact Nat.zero_le _
  | nested _ hnests ih =>
    obtain ⟨hof, -, hdepth⟩ := ih
    obtain ⟨_, -, hgrows⟩ := hnests.exists_new
    have hlength := hgrows.length_le
    rw [List.length_cons] at hlength
    cases hnests with
    | white h hnew =>
      have hlt := Code.lt_size_of_isPlaceholder (hof.reaches h).2
      exact ⟨hof.visit hlt hnew, hlt, by omega⟩
    | color h hnew white =>
      have hlt := Code.lt_size_of_isPlaceholder (hof.reaches h).2
      exact ⟨white.of (hof.visit hlt hnew) hlt, hlt, by omega⟩

/-- The pass over a code ends. -/
structure Terminates (code : Code) : Prop where
  /-- The unbounded recursion comes to one thing, the collapsed code. -/
  yields : ∃ s, (∀ s', YieldsAll ⟨code, []⟩ code.slots s' ↔ s' = s) ∧ s.code = code.collapse
  /-- So does every call it makes, to something. -/
  calls : ∀ depth call, CalledAt code depth call → ∃ s, Yields call.state call.line call.slot s
  /-- A nested call has a branch visited that was not. -/
  marks : ∀ call call', Nests call call' →
    ∃ branch ∉ call.state.visited, branch :: call.state.visited <:+ call'.state.visited
  /-- There are eight branches to a line. -/
  depth_le : ∀ depth call, CalledAt code depth call → depth ≤ 8 * code.size

theorem terminates (code : Code) : Terminates code where
  yields := by
    have hpass := yieldsAll_foldl (List.range code.size) ⟨code, []⟩ (.start code) (by simp)
    refine ⟨_, fun s' => ⟨fun h => h.unique hpass, ?_⟩, rfl⟩
    rintro rfl
    exact hpass
  calls depth call h := by
    obtain ⟨hof, hline, -⟩ := h.marked
    exact ⟨_, yields_redirect (code.branchCount + 1) _ _ call.slot hof hline (by omega)⟩
  marks _ _ := Nests.exists_new
  depth_le depth call h := by
    obtain ⟨hof, -, hdepth⟩ := h.marked
    exact hdepth.trans (Branch.length_le hof.nodup hof.lines)

end Collapsing

/-! ## Folding -/

/-- The branch that control passes to from an action, with a color under the
cursor, while the cursor stands still. -/
def Action.passesTo? (a : Action Target) (color : Color) : Option Branch :=
  a.stillJump?.map fun line => ⟨a.write.getD color, line⟩

namespace Folding

/-- What following the chain of an action comes to, however deep it has to
recurse. -/
inductive Yields (strictness : Strictness) : Folding → List Branch → Action Target → Color →
    Except Fault (Option (Action Target) × Folding) → Prop where
  | ends {s : Folding} {path : List Branch} {a : Action Target} {color : Color}
      (h : a.passesTo? color = none) : Yields strictness s path a color (.ok (some a, s))
  | known {s : Folding} {path : List Branch} {a : Action Target} {color : Color} {c : Branch}
      (h : a.passesTo? color = some c) (hloop : c ∈ s.looping) :
      Yields strictness s path a color (.ok (none, s))
  | rejected {s : Folding} {path : List Branch} {a : Action Target} {color : Color} {c : Branch}
      (h : a.passesTo? color = some c) (hloop : c ∉ s.looping) (hback : c ∈ path)
      (strict : strictness = .strict) :
      Yields strictness s path a color (.error (loopFault c.line))
  | loops {s : Folding} {path : List Branch} {a : Action Target} {color : Color} {c : Branch}
      (h : a.passesTo? color = some c) (hloop : c ∉ s.looping) (hback : c ∈ path)
      (permissive : strictness = .permissive) :
      Yields strictness s path a color (.ok (none, s.markLooping c))
  | follows {s : Folding} {path : List Branch} {a : Action Target} {color : Color} {c : Branch}
      {r : Except Fault (Option (Action Target) × Folding)}
      (h : a.passesTo? color = some c) (hloop : c ∉ s.looping) (hnew : c ∉ path)
      (rest : Yields strictness s (c :: path) (c.action s.code) c.color r) :
      Yields strictness s path a color (passBack c a.write r)

/-- What folding makes of the action of a branch, given what its chain came to. -/
def putBack (b : Branch) :
    Except Fault (Option (Action Target) × Folding) → Except Fault Folding
  | .error fault => .error fault
  | .ok (none, s) => .ok s
  | .ok (some last, s) => .ok (s.put b last)

/-- What folding from the branches of a list, in order, comes to. -/
inductive YieldsAll (strictness : Strictness) :
    Folding → List Branch → Except Fault Folding → Prop where
  | nil {s : Folding} : YieldsAll strictness s [] (.ok s)
  | rejected {s : Folding} {b : Branch} {rest : List Branch} {fault : Fault}
      {r : Except Fault (Option (Action Target) × Folding)}
      (first : Yields strictness s [b] (b.action s.code) b.color r)
      (h : putBack b r = .error fault) : YieldsAll strictness s (b :: rest) (.error fault)
  | cons {s s₁ : Folding} {b : Branch} {rest : List Branch} {out : Except Fault Folding}
      {r : Except Fault (Option (Action Target) × Folding)}
      (first : Yields strictness s [b] (b.action s.code) b.color r) (h : putBack b r = .ok s₁)
      (others : YieldsAll strictness s₁ rest out) : YieldsAll strictness s (b :: rest) out

/-- A call of the recursion: follow the chain of an action, the branches of `path`
being followed already. -/
structure Call where
  state : Folding
  path : List Branch
  action : Action Target
  color : Color

/-- The one call makes the other, directly. -/
inductive Nests : Call → Call → Prop where
  | follows {s : Folding} {path : List Branch} {a : Action Target} {color : Color} {c : Branch}
      (h : a.passesTo? color = some c) (hloop : c ∉ s.looping) (hnew : c ∉ path) :
      Nests ⟨s, path, a, color⟩ ⟨s, c :: path, c.action s.code, c.color⟩

/-- The pass over a code makes a call, nested in as many others. -/
inductive CalledAt (strictness : Strictness) (code : Code) : Nat → Call → Prop where
  | outer {before after : List Branch} {b : Branch} {s : Folding}
      (hstarts : code.starts = before ++ b :: after)
      (hs : YieldsAll strictness ⟨code, []⟩ before (.ok s)) :
      CalledAt strictness code 0 ⟨s, [b], b.action s.code, b.color⟩
  | nested {depth : Nat} {call call' : Call} (h : CalledAt strictness code depth call)
      (hnests : Nests call call') : CalledAt strictness code (depth + 1) call'

variable {code : Code} {strictness : Strictness} {s : Folding} {path : List Branch}
  {a : Action Target} {color : Color} {r : Except Fault (Option (Action Target) × Folding)}

/-- A nested call follows a branch that was not being followed. -/
theorem Nests.exists_new {call call' : Call} (h : Nests call call') :
    ∃ branch ∉ call.path, call'.path = branch :: call.path := by
  cases h with
  | follows _ _ hnew => exact ⟨_, hnew, rfl⟩

theorem resolve_of_passesTo?_eq_none (h : a.passesTo? color = none) (depth : Nat) :
    resolve strictness (depth + 1) s path a color = .ok (some a, s) :=
  resolve_of_stillJump?_eq_none (Option.map_eq_none_iff.mp h) color

theorem resolve_of_passesTo? {c : Branch} (h : a.passesTo? color = some c) (depth : Nat) :
    resolve strictness (depth + 1) s path a color =
      if c ∈ s.looping then .ok (none, s)
      else if c ∈ path then
        match strictness with
        | .strict => .error (loopFault c.line)
        | .permissive => .ok (none, s.markLooping c)
      else passBack c a.write (resolve strictness depth s (c :: path) (c.action s.code) c.color) := by
  obtain ⟨line, hjump, rfl⟩ := Option.map_eq_some_iff.mp h
  exact resolve_of_stillJump? hjump rfl

/-- With enough depth, the bounded recursion comes to what the unbounded one
does. -/
theorem Yields.exists_depth (h : Yields strictness s path a color r) :
    ∃ least, ∀ depth, least < depth → resolve strictness depth s path a color = r := by
  induction h with
  | ends h =>
    refine ⟨0, fun depth hdepth => ?_⟩
    obtain ⟨depth, rfl⟩ := Nat.exists_eq_add_of_lt hdepth
    rw [resolve_of_passesTo?_eq_none h]
  | known h hloop =>
    refine ⟨0, fun depth hdepth => ?_⟩
    obtain ⟨depth, rfl⟩ := Nat.exists_eq_add_of_lt hdepth
    rw [resolve_of_passesTo? h, if_pos hloop]
  | rejected h hloop hback strict =>
    subst strict
    refine ⟨0, fun depth hdepth => ?_⟩
    obtain ⟨depth, rfl⟩ := Nat.exists_eq_add_of_lt hdepth
    rw [resolve_of_passesTo? h, if_neg hloop, if_pos hback]
  | loops h hloop hback permissive =>
    subst permissive
    refine ⟨0, fun depth hdepth => ?_⟩
    obtain ⟨depth, rfl⟩ := Nat.exists_eq_add_of_lt hdepth
    rw [resolve_of_passesTo? h, if_neg hloop, if_pos hback]
  | follows h hloop hnew _ ih =>
    obtain ⟨least, hleast⟩ := ih
    refine ⟨least + 1, fun depth hdepth => ?_⟩
    obtain ⟨depth, rfl⟩ : ∃ d, depth = d + 1 := ⟨depth - 1, by omega⟩
    rw [resolve_of_passesTo? h, if_neg hloop, if_neg hnew, hleast depth (by omega)]

/-- A call comes to one thing. -/
theorem Yields.unique {r' : Except Fault (Option (Action Target) × Folding)}
    (h : Yields strictness s path a color r) (h' : Yields strictness s path a color r') :
    r = r' := by
  obtain ⟨least, hleast⟩ := h.exists_depth
  obtain ⟨least', hleast'⟩ := h'.exists_depth
  rw [← hleast (max least least' + 1) (by omega), hleast' _ (by omega)]

theorem YieldsAll.unique {starts : List Branch} {out out' : Except Fault Folding}
    (h : YieldsAll strictness s starts out) (h' : YieldsAll strictness s starts out') :
    out = out' := by
  induction h with
  | nil =>
    cases h' with
    | nil => rfl
  | rejected first h =>
    cases h' with
    | rejected first' h' => exact h.symm.trans (first.unique first' ▸ h')
    | cons first' h' _ => simp [first.unique first', h'] at h
  | cons first h _ ih =>
    cases h' with
    | rejected first' h' => simp [first.unique first', h'] at h
    | cons first' h' others' =>
      obtain rfl := Except.ok.inj (h.symm.trans (first.unique first' ▸ h'))
      exact ih others'

/-! The calls of a pass follow chains of the code before. -/

/-- The call follows the chain of the newest branch of a trail. -/
inductive OnTrail (strictness : Strictness) (code : Code) : Call → Prop where
  | intro {s : Folding} {b : Branch} {rest : List Branch} (of : Of code strictness s)
      (trail : Trail code (b :: rest)) :
      OnTrail strictness code ⟨s, b :: rest, b.action s.code, b.color⟩

/-- An action that passes on was not replaced yet. -/
theorem Of.next? (hof : Of code strictness s) {b c : Branch}
    (h : (b.action s.code).passesTo? b.color = some c) : b.next? code = some c := by
  rcases hof.action b with horig | hend
  · rwa [horig] at h
  · obtain ⟨line, hjump, -⟩ := Option.map_eq_some_iff.mp h
    simp [hend.stillJump?] at hjump

/-- The bounded recursion is deep enough where its depth makes up for the branches
that are not followed yet. -/
theorem yields_resolve (hrange : code.InRange) :
    ∀ (depth : Nat) (s : Folding) (b : Branch) (path : List Branch), Of code strictness s →
      Trail code (b :: path) → code.branchCount < depth + (b :: path).length →
      Yields strictness s (b :: path) (b.action s.code) b.color
        (resolve strictness depth s (b :: path) (b.action s.code) b.color)
  | 0, s, b, path, _, htrail, hdepth => by
      have hle := htrail.length_le
      omega
  | depth + 1, s, b, path, hof, htrail, hdepth => by
      cases hbranch : (b.action s.code).passesTo? b.color with
      | none =>
        rw [resolve_of_passesTo?_eq_none hbranch]
        exact .ends hbranch
      | some c =>
        rw [resolve_of_passesTo? hbranch]
        split
        · next hloop => exact .known hbranch hloop
        · next hloop =>
          split
          · next hback =>
            cases strictness with
            | strict => exact .rejected hbranch hloop hback rfl
            | permissive => exact .loops hbranch hloop hback rfl
          · next hnew =>
            have htrail' := htrail.cons hrange (hof.next? hbranch) hnew
            exact .follows hbranch hloop hnew (yields_resolve hrange depth s c (b :: path) hof htrail'
              (by simp only [List.length_cons] at hdepth ⊢; omega))

theorem foldSlot_eq_putBack (depth : Nat) (s : Folding) (line : Nat) (slot : Slot) :
    foldSlot strictness depth s line slot =
      putBack (Branch.start line slot) (resolve strictness depth s [Branch.start line slot]
        ((Branch.start line slot).action s.code) (Branch.start line slot).color) := by
  rw [Branch.action_start, foldSlot]
  change _ = putBack _ (resolve strictness depth s [⟨slot.standIn, line⟩] _ slot.standIn)
  cases resolve strictness depth s [⟨slot.standIn, line⟩] (s.code.action line slot)
    slot.standIn with
  | error fault => rfl
  | ok out =>
    obtain ⟨_ | last, s'⟩ := out
    · rfl
    · simp [putBack, put, Branch.start]

/-- What folding from one branch comes to, it comes to within the depth that the
pass allows. -/
theorem yields_start (hrange : code.InRange) (hof : Of code strictness s) {line : Nat}
    (hrun : code.CanRun line) (slot : Slot) :
    ∃ r, Yields strictness s [Branch.start line slot] ((Branch.start line slot).action s.code)
        (Branch.start line slot).color r ∧
      putBack (Branch.start line slot) r =
        foldSlot strictness (code.branchCount + 2) s line slot :=
  ⟨_, yields_resolve hrange (code.branchCount + 2) s _ [] hof (.start hrun.1 slot) (by omega),
    (foldSlot_eq_putBack _ s line slot).symm⟩

theorem YieldsAll.of (hrange : code.InRange) {starts : List Branch} {s' : Folding}
    (h : YieldsAll strictness s starts (.ok s')) (hof : Of code strictness s)
    (hstarts : ∀ b ∈ starts, b ∈ code.starts) : Of code strictness s' := by
  generalize hout : (Except.ok s' : Except Fault Folding) = out at h
  induction h with
  | nil =>
    obtain rfl := Except.ok.inj hout
    exact hof
  | rejected _ _ => simp at hout
  | @cons s s₁ b rest out r first h _ ih =>
    rw [List.forall_mem_cons] at hstarts
    obtain ⟨line, slot, hrun, rfl⟩ := Code.mem_starts_iff.mp hstarts.1
    obtain ⟨r', hr', hfold⟩ := yields_start hrange hof hrun slot
    have hspec := foldSlot_spec hrange hof hrun slot
    rw [← hfold, hr'.unique first, h] at hspec
    exact ih hspec.of hstarts.2 hout

theorem YieldsAll.append {xs ys : List Branch} {s₁ : Folding} {out : Except Fault Folding}
    (h : YieldsAll strictness s xs (.ok s₁)) (h' : YieldsAll strictness s₁ ys out) :
    YieldsAll strictness s (xs ++ ys) out := by
  generalize hmid : (Except.ok s₁ : Except Fault Folding) = mid at h
  induction h with
  | nil =>
    obtain rfl := Except.ok.inj hmid
    exact h'
  | rejected _ _ => simp at hmid
  | cons first h _ ih => exact .cons first h (ih hmid)

theorem YieldsAll.error_append {xs : List Branch} {fault : Fault}
    (h : YieldsAll strictness s xs (.error fault)) (ys : List Branch) :
    YieldsAll strictness s (xs ++ ys) (.error fault) := by
  generalize hout : (Except.error fault : Except Fault Folding) = out at h
  induction h with
  | nil => simp at hout
  | rejected first h =>
    obtain rfl := Except.error.inj hout
    exact .rejected first h
  | cons first h _ ih => exact .cons first h (ih hout)

theorem yieldsAll_foldSlot (hrange : code.InRange) (hof : Of code strictness s) {line : Nat}
    (hrun : code.CanRun line) (slot : Slot) :
    YieldsAll strictness s [Branch.start line slot]
      (foldSlot strictness (code.branchCount + 2) s line slot) := by
  obtain ⟨r, hr, hfold⟩ := yields_start hrange hof hrun slot
  rw [← hfold]
  cases hput : putBack (Branch.start line slot) r with
  | error fault => exact .rejected hr hput
  | ok s₁ => exact .cons hr hput .nil

theorem yieldsAll_foldLine (hrange : code.InRange) (hof : Of code strictness s) {line : Nat}
    (hline : line < code.size) :
    YieldsAll strictness s (starts code line)
      (foldLine strictness (code.branchCount + 2) s line) := by
  unfold foldLine starts
  rw [Code.isPlaceholder_congr hof.kinds]
  split
  · exact .nil
  · next hp =>
    have hrun : code.CanRun line := ⟨hline, by simpa using hp⟩
    have hwhite := yieldsAll_foldSlot hrange hof hrun .white
    have hspec := foldSlot_spec hrange hof hrun .white
    change YieldsAll strictness s ([Branch.start line .white] ++ [Branch.start line .color]) _
    split
    · next hr => exact (hr ▸ hwhite).error_append _
    · next s₁ hr =>
      rw [hr] at hwhite hspec
      exact hwhite.append (yieldsAll_foldSlot hrange hspec.of hrun .color)

theorem yieldsAll_foldLines (hrange : code.InRange) :
    ∀ (lines : List Nat) (s : Folding), Of code strictness s →
      (∀ line ∈ lines, line < code.size) →
      YieldsAll strictness s (lines.flatMap (starts code))
        (foldLines strictness (code.branchCount + 2) s lines)
  | [], _, _, _ => .nil
  | line :: rest, s, hof, hlines => by
      rw [List.forall_mem_cons] at hlines
      have hfirst := yieldsAll_foldLine hrange hof hlines.1
      have hspec := foldLine_spec hrange hof hlines.1
      rw [List.flatMap_cons, foldLines]
      split
      · next hr => exact (hr ▸ hfirst).error_append _
      · next s₁ hr =>
        rw [hr] at hfirst hspec
        exact hfirst.append (yieldsAll_foldLines hrange rest s₁ hspec.of hlines.2)

/-- Every call of a pass follows a branch for every call that it is nested in, and
the branch that folding began from. -/
theorem CalledAt.onTrail (hrange : code.InRange) {depth : Nat} {call : Call}
    (h : CalledAt strictness code depth call) :
    OnTrail strictness code call ∧ call.path.length = depth + 1 := by
  induction h with
  | @outer before after b s hstarts hs =>
    have hmem : ∀ b' ∈ before ++ b :: after, b' ∈ code.starts := fun b' h => hstarts ▸ h
    obtain ⟨line, slot, hrun, rfl⟩ := Code.mem_starts_iff.mp (hmem b (by simp))
    have hof := hs.of hrange (.start code strictness) fun b' h => hmem b' (List.mem_append_left _ h)
    exact ⟨.intro hof (.start hrun.1 slot), rfl⟩
  | nested _ hnests ih =>
    obtain ⟨htrail, hlength⟩ := ih
    cases htrail with
    | intro of trail =>
      cases hnests with
      | follows h _ hnew =>
        exact ⟨.intro of (trail.cons hrange (of.next? h) hnew), congrArg Nat.succ hlength⟩

/-- The pass over a code ends. -/
structure Terminates (strictness : Strictness) (code : Code) : Prop where
  /-- The unbounded recursion comes to one thing, the folded code or a fault. -/
  yields : ∃ out, (∀ out', YieldsAll strictness ⟨code, []⟩ code.starts out' ↔ out' = out) ∧
    out.map Folding.code = code.fold strictness
  /-- So does every call it makes, to something. -/
  calls : ∀ depth call, CalledAt strictness code depth call →
    ∃ r, Yields strictness call.state call.path call.action call.color r
  /-- A nested call follows a branch that was not being followed. -/
  marks : ∀ call call', Nests call call' →
    ∃ branch ∉ call.path, call'.path = branch :: call.path
  /-- There are eight branches to a line. -/
  depth_le : ∀ depth call, CalledAt strictness code depth call → depth ≤ 8 * code.size

theorem terminates (hrange : code.InRange) (strictness : Strictness) :
    Terminates strictness code where
  yields := by
    have hpass := yieldsAll_foldLines hrange (List.range code.size) ⟨code, []⟩
      (Of.start code strictness) (by simp)
    refine ⟨_, fun out => ⟨fun h => h.unique hpass, ?_⟩, rfl⟩
    rintro rfl
    exact hpass
  calls depth call h := by
    obtain ⟨htrail, -⟩ := h.onTrail hrange
    cases htrail with
    | intro of trail =>
      exact ⟨_, yields_resolve hrange (code.branchCount + 1) _ _ _ of trail (by omega)⟩
  marks _ _ := Nests.exists_new
  depth_le depth call h := by
    obtain ⟨htrail, hlength⟩ := h.onTrail hrange
    cases htrail with
    | intro of trail =>
      have hle : depth + 1 ≤ 8 * code.size := hlength ▸ trail.length_le
      omega

end Folding

/-! ## Both passes -/

/-- Neither pass can hang: for any code whose jumps are in range, each comes to an
end however deep it may recurse, and it never recurses deeper than there are
branches. -/
theorem Code.passes_terminate {code : Code} (hrange : code.InRange) (strictness : Strictness) :
    Collapsing.Terminates code ∧ Folding.Terminates strictness code :=
  ⟨Collapsing.terminates code, Folding.terminates hrange strictness⟩

/-- Placeholders that go round and write, and a chain that comes back to itself. -/
theorem Code.passes_terminate_in_circles :
    ∃ code : Code, code = #[
        ⟨⟨some .red, .nowhere, .jump 1⟩, .goOn (.jump 0), .conditional⟩,
        ⟨⟨some .blue, .nowhere, .jump 2⟩, .goOn (.exit 3), .placeholder⟩,
        ⟨.goOn (.jump 1), ⟨some .white, .nowhere, .jump 0⟩, .placeholder⟩] ∧
      code.InRange ∧
      (∀ depth call, Collapsing.CalledAt code depth call → depth ≤ 24) ∧
      Folding.YieldsAll .strict ⟨code, []⟩ code.starts (.error (Folding.loopFault 0)) ∧
      ∀ depth call, Folding.CalledAt .strict code depth call → depth ≤ 24 := by
  refine ⟨_, rfl, ?_⟩
  generalize hcode : (#[_, _, _] : Code) = code
  have hrange : InRange code := by
    subst hcode
    rintro (_ | _ | _ | line) (_ | _) next h <;>
      simp_all [action, Action.goOn, Instruction.action] <;> omega
  have hsize : 8 * code.size = 24 := by
    subst hcode
    rfl
  have hreject : fold .strict code = .error (Folding.loopFault 0) := by
    subst hcode
    rfl
  obtain ⟨hcollapse, hfold⟩ := passes_terminate hrange .strict
  obtain ⟨out, hout, hmap⟩ := hfold.yields
  obtain rfl : out = .error (Folding.loopFault 0) := by
    rw [hreject] at hmap
    cases out <;> simp_all [Except.map]
  exact ⟨hrange, hsize ▸ hcollapse.depth_le, (hout _).mpr rfl, hsize ▸ hfold.depth_le⟩

end PixelTurtle
