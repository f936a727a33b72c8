import SourcePreprocessor.Proofs.Block.Operation

/-!
# Which branch of a block is selected

A frame holds three answers that were found when its block was opened or when its last branch began:
whether the text around the block is kept, whether a branch was taken, and whether the branch being
read is the one. They are not looked up again, so that they stay right is an invariant of all the
operations on the stack, in any order, the ones that fail included:

> `Frame.Sound`: what a frame says about the blocks around it is so, and its flags fit together;
> `Frame.Records`: what it says about its own branches is so, too.

The second one is about the past. A `Chronicle` keeps, beside each open block, its branches from the
first one on: which operation began each of them, and whether it was selected. From both together
follows that a block selects at most one of its branches, and exactly one when it comes to the branch
without a condition (`chronicle_faithful`).

The operations are performed in place. So the chronicle goes on from the blocks that an operation
leaves, also when it fails, and that these are the blocks from before is a part of what is proved.
-/

namespace SourcePreprocessor

/-- A branch of a block: the operation that began it, and whether it was selected. -/
structure Branch where
  begunBy : BlockOperation
  selected : Bool
  deriving DecidableEq

/-- Whether the branch is the one without a condition. -/
def Branch.isLast (b : Branch) : Bool :=
  match b.begunBy with
  | .otherwise _ => true
  | _ => false

/-! ## Frames and the blocks around them -/

/-- What a frame says about the blocks around it is so, and its flags fit together. -/
structure Frame.Sound (f : Frame) (below : List Frame) : Prop where
  /-- The text around the block is kept when every block around it is at its selected branch. -/
  enclosed : f.enclosed = below.all (·.selected)
  enclosed_of_selected : f.selected = true → f.enclosed = true
  taken_of_selected : f.selected = true → f.taken = true
  taken_of_elseSeen : f.elseSeen = true → f.taken = true

/-- What a frame says about its branches is so. They are given from the one that the opening of the
block began to the one being read. -/
structure Frame.Records (f : Frame) (branches : List Branch) : Prop where
  opened : ∃ condition selected later,
    branches = ⟨.enter condition f.openedBy f.openedAt, selected⟩ :: later
  current : branches.getLast?.map (·.selected) = some f.selected
  elseSeen_iff : f.elseSeen = true ↔ ∃ b ∈ branches, b.isLast = true
  taken_iff : f.taken = true ↔ ∃ b ∈ branches, b.isLast = true ∨ b.selected = true
  atMostOne : branches.countP (·.selected) ≤ 1
  /-- Where the text around the block is left out, no branch is selected. -/
  none : f.enclosed = false → branches.countP (·.selected) = 0
  /-- Where it is kept, one of the branches is when they come to the one without a condition. -/
  one : f.enclosed = true → (∃ b ∈ branches, b.isLast = true) →
    branches.countP (·.selected) = 1

/-- Text is kept when every open block is at its selected branch. -/
theorem isActive_eq_all {f : Frame} {below : List Frame} (h : f.Sound below) :
    BlockStack.isActive ⟨f :: below⟩ = (f :: below).all (·.selected) := by
  show (f.enclosed && f.selected) = _
  rw [List.all_cons, ← h.enclosed, Bool.and_comm]

theorem openedFrame_sound {around : List Frame}
    (haround : BlockStack.isActive ⟨around⟩ = around.all (·.selected)) (condition : Option Bool)
    (d : Directive) (line : Nat) : (openedFrame around condition d line).Sound around := by
  refine ⟨haround, fun h => ?_, fun h => h, fun h => nomatch h⟩
  exact (Bool.and_eq_true_iff.1 h).1

namespace Frame

variable {f : Frame} {below : List Frame} {branches : List Branch}

theorem Sound.atElseIf (h : f.Sound below) (condition : Option Bool) :
    (f.atElseIf condition).Sound below := by
  refine ⟨h.enclosed, fun hsel => ?_, fun hsel => ?_, fun helse => ?_⟩
  · exact (Bool.and_eq_true_iff.1 (Bool.and_eq_true_iff.1 hsel).1).1
  · exact Bool.or_eq_true_iff.2 (.inr hsel)
  · exact Bool.or_eq_true_iff.2 (.inl (h.taken_of_elseSeen helse))

theorem Sound.atOtherwise (h : f.Sound below) : f.atOtherwise.Sound below :=
  ⟨h.enclosed, fun hsel => (Bool.and_eq_true_iff.1 hsel).1, fun _ => rfl, fun _ => rfl⟩

theorem openedFrame_records (around : List Frame) (condition : Option Bool) (d : Directive)
    (line : Nat) :
    (openedFrame around condition d line).Records
      [⟨.enter condition d line, (openedFrame around condition d line).selected⟩] := by
  refine ⟨⟨condition, _, [], rfl⟩, rfl, ?_, ?_, List.countP_le_length, fun henclosed => ?_,
    fun _ hlast => ?_⟩
  · simp [openedFrame, Branch.isLast]
  · simp [openedFrame, Branch.isLast]
  · change BlockStack.isActive ⟨around⟩ = false at henclosed
    simp [openedFrame, henclosed]
  · simp [Branch.isLast] at hlast

/-- A branch that is added has what is asked for, or one of those before it has. -/
theorem exists_branch_concat {p : Branch → Prop} {branches : List Branch} {b : Branch} :
    (∃ x ∈ branches ++ [b], p x) ↔ (∃ x ∈ branches, p x) ∨ p b := by
  simp [or_and_right, exists_or]

theorem Records.opened_concat (h : f.Records branches) (b : Branch) :
    ∃ condition selected later,
      branches ++ [b] = ⟨.enter condition f.openedBy f.openedAt, selected⟩ :: later := by
  obtain ⟨condition, selected, later, rfl⟩ := h.opened
  exact ⟨condition, selected, later ++ [b], rfl⟩

/-- As long as no branch was taken, none of those so far was selected. -/
theorem Records.count_eq_zero (h : f.Records branches) (htaken : f.taken = false) :
    branches.countP (·.selected) = 0 := by
  refine List.countP_eq_zero.2 fun b hb hselected => ?_
  rw [h.taken_iff.2 ⟨b, hb, .inr hselected⟩] at htaken
  nomatch htaken

/-- A branch that is selected only if none was taken before it leaves one at most. -/
theorem Records.count_concat (h : f.Records branches) {b : Branch}
    (hselected : b.selected = true → f.taken = false) :
    (branches ++ [b]).countP (·.selected) ≤ 1 := by
  rw [List.countP_append]
  cases hb : b.selected with
  | false =>
    rw [List.countP_singleton, hb]
    exact h.atMostOne
  | true =>
    rw [h.count_eq_zero (hselected hb), Nat.zero_add]
    exact List.countP_le_length

/-- Inside text that is left out, the count goes on from zero. -/
theorem Records.count_concat_of_not_selected (h : f.Records branches) (henclosed : f.enclosed = false)
    {b : Branch} (hb : b.selected = false) : (branches ++ [b]).countP (·.selected) = 0 := by
  rw [List.countP_append, h.none henclosed, List.countP_singleton, hb]
  rfl

theorem Records.atElseIf (h : f.Records branches) (helse : f.elseSeen = false)
    (condition : Option Bool) (d : Directive) :
    (f.atElseIf condition).Records
      (branches ++ [⟨.elseIf condition d, (f.atElseIf condition).selected⟩]) := by
  have hselected : (f.atElseIf condition).selected = (f.enclosed && !f.taken && condition.getD false) :=
    rfl
  have hbefore : ¬ ∃ b ∈ branches, b.isLast = true := by
    rw [← h.elseSeen_iff, helse]
    exact Bool.false_ne_true
  have hnew : (Branch.mk (.elseIf condition d) (f.atElseIf condition).selected).isLast = false := rfl
  refine ⟨h.opened_concat _, by simp, ?_, ?_, h.count_concat fun hsel => ?_, fun henclosed => ?_,
    fun _ hlast => ?_⟩
  · show f.elseSeen = true ↔ _
    rw [exists_branch_concat, h.elseSeen_iff, hnew]
    simp
  · show (f.taken || (f.atElseIf condition).selected) = true ↔ _
    rw [Bool.or_eq_true_iff, h.taken_iff, exists_branch_concat, hnew]
    simp
  · change (f.atElseIf condition).selected = true at hsel
    rw [hselected, Bool.and_eq_true_iff, Bool.and_eq_true_iff, Bool.not_eq_true'] at hsel
    exact hsel.1.2
  · change f.enclosed = false at henclosed
    refine h.count_concat_of_not_selected henclosed ?_
    rw [hselected, henclosed]
    rfl
  · rw [exists_branch_concat, hnew] at hlast
    rcases hlast with hlast | hlast
    · exact absurd hlast hbefore
    · nomatch hlast

theorem Records.atOtherwise (h : f.Records branches) (helse : f.elseSeen = false) (d : Directive) :
    f.atOtherwise.Records (branches ++ [⟨.otherwise d, f.atOtherwise.selected⟩]) := by
  have hselected : f.atOtherwise.selected = (f.enclosed && !f.taken) := rfl
  have hnew : (Branch.mk (.otherwise d) f.atOtherwise.selected).isLast = true := rfl
  refine ⟨h.opened_concat _, by simp, ?_, ?_, h.count_concat fun hsel => ?_, fun henclosed => ?_,
    fun henclosed _ => ?_⟩
  · rw [exists_branch_concat, hnew]
    simp
  · rw [exists_branch_concat, hnew]
    simp [Frame.atOtherwise]
  · change f.atOtherwise.selected = true at hsel
    rw [hselected, Bool.and_eq_true_iff, Bool.not_eq_true'] at hsel
    exact hsel.2
  · change f.enclosed = false at henclosed
    refine h.count_concat_of_not_selected henclosed ?_
    rw [hselected, henclosed]
    rfl
  · change f.enclosed = true at henclosed
    rw [List.countP_append, List.countP_singleton, hselected, henclosed]
    -- the last branch is selected when no other one was
    cases htaken : f.taken with
    | false =>
      rw [h.count_eq_zero htaken]
      rfl
    | true =>
      obtain ⟨b, hb, hlast | hsel⟩ := h.taken_iff.1 htaken
      · rw [h.elseSeen_iff.2 ⟨b, hb, hlast⟩] at helse
        nomatch helse
      · have hpos : 0 < branches.countP (·.selected) := List.countP_pos_iff.2 ⟨b, hb, hsel⟩
        exact Nat.le_antisymm h.atMostOne hpos

end Frame

/-! ## The branches of the open blocks -/

/-- The open blocks, and for each of them its branches, from the first one to the one being read. Both
lists have the innermost block first. -/
structure Chronicle where
  blocks : BlockStack
  branches : List (List Branch)
  deriving DecidableEq

namespace Chronicle

/-- The branches after an operation that succeeded: a block starts with its first branch, each
further branch is added to the innermost block, and a block that is closed is forgotten. -/
def record (branches : List (List Branch)) (op : BlockOperation) (after : List Frame) :
    List (List Branch) :=
  match op, after, branches with
  | .enter .., f :: _, branches => [⟨op, f.selected⟩] :: branches
  | .elseIf .., f :: _, own :: branches => (own ++ [⟨op, f.selected⟩]) :: branches
  | .otherwise _, f :: _, own :: branches => (own ++ [⟨op, f.selected⟩]) :: branches
  | .close _, _, _ :: branches => branches
  | _, _, _ => branches

/-- The chronicle after the steps of an operation. -/
def perform (c : Chronicle) (op : BlockOperation) : Chronicle :=
  match op.steps.exec c.blocks with
  | (.ok (), after) => ⟨after, record c.branches op after.frames⟩
  | (.error _, after) => ⟨after, c.branches⟩

/-- The chronicle of operations, one after the other, when no block is open before them. -/
def of (ops : List BlockOperation) : Chronicle := ops.foldl perform ⟨.empty, []⟩

/-- The frames are sound, and each of them records the branches of its block. -/
inductive Faithful : List Frame → List (List Branch) → Prop
  | nil : Faithful [] []
  | cons {f : Frame} {below : List Frame} {own : List Branch} {branches : List (List Branch)}
    (sound : f.Sound below) (records : f.Records own) (rest : Faithful below branches) :
    Faithful (f :: below) (own :: branches)

namespace Faithful

variable {frames : List Frame} {branches : List (List Branch)}

theorem isActive (h : Faithful frames branches) :
    BlockStack.isActive ⟨frames⟩ = frames.all (·.selected) := by
  cases h with
  | nil => rfl
  | cons sound records rest => exact isActive_eq_all sound

theorem length_eq (h : Faithful frames branches) : branches.length = frames.length := by
  induction h with
  | nil => rfl
  | cons sound records rest ih => exact congrArg (· + 1) ih

/-- An operation that succeeds keeps the frames faithful. -/
theorem step (h : Faithful frames branches) {op : BlockOperation} {after : List Frame}
    (hop : Changes frames op after) : Faithful after (record branches op after) := by
  cases hop with
  | enter frames condition d line =>
    exact .cons (openedFrame_sound h.isActive condition d line)
      (Frame.openedFrame_records frames condition d line) h
  | elseIf f below condition d hopen =>
    cases h with
    | cons sound records rest =>
      exact .cons (sound.atElseIf condition) (records.atElseIf hopen condition d) rest
  | otherwise f below d hopen =>
    cases h with
    | cons sound records rest => exact .cons sound.atOtherwise (records.atOtherwise hopen d) rest
  | close f below d =>
    cases h with
    | cons sound records rest => exact rest

/-- What holds of a frame wherever it stands in the stack. -/
theorem at_frame (h : Faithful frames branches) :
    ∀ {above : List Frame} {f : Frame} {below : List Frame}, frames = above ++ f :: below →
      f.Sound below ∧ ∃ own, branches[above.length]? = some own ∧ f.Records own := by
  induction h with
  | nil =>
    intro above f below hframes
    exact absurd hframes.symm (List.append_ne_nil_of_right_ne_nil _ (List.cons_ne_nil _ _))
  | cons sound records rest ih =>
    intro above f below hframes
    cases above with
    | nil =>
      obtain ⟨rfl, rfl⟩ := List.cons.inj hframes
      exact ⟨sound, _, rfl, records⟩
    | cons g above => exact ih (List.cons.inj hframes).2

/-- The condition of a further branch is needed exactly when the text around the block is kept and
none of its branches was selected. -/
theorem needsCondition_iff (h : Faithful frames branches) (d : Directive) :
    BlockStack.needsCondition ⟨frames⟩ d = .ok true ↔
      ∃ f below own others, frames = f :: below ∧ branches = own :: others ∧
        f.enclosed = true ∧ ∀ b ∈ own, b.selected = false := by
  cases h with
  | nil => exact ⟨nofun, fun ⟨_, _, _, _, hframes, _⟩ => nomatch hframes⟩
  | @cons f below own others sound records rest =>
    rw [BlockStack.needsCondition_cons]
    constructor
    · intro hneeds
      cases hseen : f.elseSeen with
      | true => rw [hseen] at hneeds; nomatch hneeds
      | false =>
        rw [hseen] at hneeds
        have hboth := Bool.and_eq_true_iff.1 (Except.ok.inj hneeds)
        refine ⟨f, below, own, others, rfl, rfl, hboth.1, fun b hb => ?_⟩
        rw [← Bool.not_eq_true]
        intro hselected
        have htaken := records.taken_iff.2 ⟨b, hb, .inr hselected⟩
        rw [htaken] at hboth
        nomatch hboth.2
    · rintro ⟨f, below, own, others, hframes, hbranches, henclosed, hnone⟩
      obtain ⟨rfl, rfl⟩ := List.cons.inj hframes
      obtain ⟨rfl, rfl⟩ := List.cons.inj hbranches
      have hcount : own.countP (·.selected) = 0 :=
        List.countP_eq_zero.2 fun b hb => Bool.eq_false_iff.1 (hnone b hb)
      -- a block that came to its last branch has selected one
      have hlast : ¬ ∃ b ∈ own, b.isLast = true := by
        intro hlast
        have hone := records.one henclosed hlast
        omega
      have hseen : f.elseSeen = false := by
        rw [← Bool.not_eq_true, records.elseSeen_iff]
        exact hlast
      have htaken : f.taken = false := by
        rw [← Bool.not_eq_true, records.taken_iff]
        rintro ⟨b, hb, h | h⟩
        · exact hlast ⟨b, hb, h⟩
        · rw [hnone b hb] at h
          nomatch h
      rw [hseen, henclosed, htaken]
      rfl

end Faithful

theorem perform_faithful {c : Chronicle} (h : Faithful c.blocks.frames c.branches)
    (op : BlockOperation) :
    Faithful (c.perform op).blocks.frames (c.perform op).branches := by
  unfold perform
  rw [op.exec_steps]
  cases hop : op.apply c.blocks with
  | error e => exact h
  | ok after => exact h.step (apply_eq_ok_iff.1 hop)

theorem of_faithful (ops : List BlockOperation) :
    Faithful (of ops).blocks.frames (of ops).branches := by
  have hrun : ∀ (ops : List BlockOperation) (c : Chronicle), Faithful c.blocks.frames c.branches →
      Faithful (ops.foldl perform c).blocks.frames (ops.foldl perform c).branches := by
    intro ops
    induction ops with
    | nil => exact fun c h => h
    | cons op ops ih => exact fun c h => ih (c.perform op) (perform_faithful h op)
  exact hrun ops ⟨.empty, []⟩ .nil

/-- Keeping the chronicle changes nothing about the blocks. -/
theorem blocks_of (ops : List BlockOperation) :
    (of ops).blocks = BlockOperation.performAll ops := by
  have hstep : ∀ (c : Chronicle) (op : BlockOperation),
      (c.perform op).blocks = op.perform c.blocks := by
    intro c op
    unfold perform BlockOperation.perform
    match op.steps.exec c.blocks with
    | (.ok (), after) => rfl
    | (.error e, after) => rfl
  have hrun : ∀ (ops : List BlockOperation) (c : Chronicle),
      (ops.foldl perform c).blocks = ops.foldl BlockOperation.perform c.blocks := by
    intro ops
    induction ops with
    | nil => exact fun c => rfl
    | cons op ops ih =>
      intro c
      rw [List.foldl_cons, List.foldl_cons, ih, hstep]
  exact hrun ops ⟨.empty, []⟩

/-- **A block selects at most one of its branches.** After any operations in place from the empty
stack, failing ones included:

- every frame is sound, and it records the branches of its block, from the operation that opened the
  block on: at most one of them was selected, none when text around the block is left out, and
  exactly one when it is kept and one of them was begun by the operation without a condition;
- text is kept exactly when every open block is at its selected branch;
- the condition of a further branch is needed exactly when the text around the innermost block is
  kept and none of its branches was selected;
- a further operation that fails leaves the blocks as they are, and one that succeeds leaves those
  that the operation gives. -/
theorem chronicle_faithful (ops : List BlockOperation) :
    (of ops).blocks = BlockOperation.performAll ops ∧
    (of ops).branches.length = (of ops).blocks.depth ∧
    (∀ above f below, (of ops).blocks.frames = above ++ f :: below →
      f.Sound below ∧ ∃ own, (of ops).branches[above.length]? = some own ∧ f.Records own) ∧
    (of ops).blocks.isActive = (of ops).blocks.frames.all (·.selected) ∧
    (∀ d, (of ops).blocks.needsCondition d = .ok true ↔
      ∃ f below own others, (of ops).blocks.frames = f :: below ∧
        (of ops).branches = own :: others ∧ f.enclosed = true ∧ ∀ b ∈ own, b.selected = false) ∧
    (∀ (op : BlockOperation) (e : StructureError) (after : BlockStack),
      op.steps.exec (of ops).blocks = (.error e, after) →
        after = (of ops).blocks ∧ op.apply (of ops).blocks = .error e) ∧
    (∀ (op : BlockOperation) (after : BlockStack),
      op.steps.exec (of ops).blocks = (.ok (), after) ↔ op.apply (of ops).blocks = .ok after) := by
  have hfaithful := of_faithful ops
  refine ⟨blocks_of ops, hfaithful.length_eq, fun _ _ _ => hfaithful.at_frame,
    hfaithful.isActive, hfaithful.needsCondition_iff, fun op e after hop => ?_, fun op after => ?_⟩
  · rw [op.exec_steps] at hop
    cases happly : op.apply (of ops).blocks with
    | ok b => rw [happly] at hop; nomatch hop
    | error e' =>
      rw [happly] at hop
      obtain ⟨he, rfl⟩ := Prod.mk.inj hop
      exact ⟨rfl, congrArg _ (Except.error.inj he)⟩
  · rw [op.exec_steps]
    cases op.apply (of ops).blocks with
    | ok b => simp
    | error e => simp

end Chronicle

end SourcePreprocessor
