import Mathlib

/-! Frames one behind the other: how far a sequence of letters can be read as encoded
frames. -/

namespace LinuxCLearning

universe u v
variable {Frame : Type u} {Letter : Type v}

/-- An encoding that no letters behind it can change. -/
structure SelfDelimiting (encode : Frame → List Letter) : Prop where
  nonempty : ∀ frame, encode frame ≠ []
  separates : ∀ first second rest more, encode first ++ rest = encode second ++ more →
    first = second ∧ rest = more

theorem separated_unique {letter : Letter} {first second rest more : List Letter}
    (plain : letter ∉ first)
    (plain' : letter ∉ second) (same : first ++ letter :: rest = second ++ letter :: more) :
    first = second ∧ rest = more := by
  induction first generalizing second with
  | nil =>
    cases second with
    | nil => exact ⟨rfl, (List.cons.inj same).2⟩
    | cons other second => exact absurd ((List.cons.inj same).1 ▸ List.mem_cons_self) plain'
  | cons head first ih =>
    cases second with
    | nil => exact absurd ((List.cons.inj same).1 ▸ List.mem_cons_self) plain
    | cons other second =>
      obtain ⟨rfl, behind⟩ := List.cons.inj same
      obtain ⟨rfl, equal⟩ := ih (fun member => plain (List.mem_cons_of_mem _ member))
        (fun member => plain' (List.mem_cons_of_mem _ member)) behind
      exact ⟨rfl, equal⟩

/-- The frames that a content starts with, as many as there are, and what is left of it. -/
structure Framed (encode : Frame → List Letter) (content : List Letter) (frames : List Frame)
    (rest : List Letter) : Prop where
  split : content = frames.flatMap encode ++ rest
  longest : ∀ frame, ¬ encode frame <+: rest

namespace Framed
variable {encode : Frame → List Letter} {content rest : List Letter}
  {frames : List Frame} {frame : Frame}

theorem nil (stop : ∀ frame, ¬ encode frame <+: rest) : Framed encode rest [] rest := ⟨rfl, stop⟩

theorem cons (framed : Framed encode content frames rest) (frame : Frame) :
    Framed encode (encode frame ++ content) (frame :: frames) rest :=
  ⟨by rw [framed.split, List.flatMap_cons, List.append_assoc], framed.longest⟩

theorem tail (framed : Framed encode content (frame :: frames) rest) :
    ∃ behind, content = encode frame ++ behind ∧ Framed encode behind frames rest :=
  ⟨frames.flatMap encode ++
    rest, by rw [framed.split, List.flatMap_cons, List.append_assoc], rfl, framed.longest⟩

/-- Every content can be read so, and in one way only. -/
theorem unique (delimiting : SelfDelimiting encode) (framed : Framed encode content frames rest)
    {others : List Frame} {more : List Letter} (other : Framed encode content others more) :
    others = frames ∧ more = rest := by
  induction frames generalizing content others with
  | nil =>
    cases others with
    | nil => exact ⟨rfl, other.split.symm.trans framed.split⟩
    | cons first others =>
      obtain ⟨behind, same, _⟩ := other.tail
      exact absurd ⟨behind, same.symm.trans framed.split⟩ (framed.longest first)
  | cons frame frames ih =>
    obtain ⟨behind, same, framed⟩ := framed.tail
    cases others with
    | nil => exact absurd ⟨behind, same.symm.trans other.split⟩ (other.longest frame)
    | cons first others =>
      obtain ⟨remaining, again, other⟩ := other.tail
      obtain ⟨rfl, rfl⟩ := delimiting.separates first frame remaining behind (again.symm.trans same)
      obtain ⟨rfl, rfl⟩ := ih framed other
      exact ⟨rfl, rfl⟩

theorem exist (delimiting : SelfDelimiting encode) (content : List Letter) :
    ∃ frames rest, Framed encode content frames rest := by
  induction size : content.length using Nat.strong_induction_on generalizing content with
  | _ size ih =>
    by_cases starts : ∃ frame, encode frame <+: content
    · obtain ⟨frame, behind, rfl⟩ := starts
      have positive := List.length_pos_iff.mpr (delimiting.nonempty frame)
      rw [List.length_append] at size
      obtain ⟨frames, rest, framed⟩ := ih behind.length (by omega) behind rfl
      exact ⟨frame :: frames, rest, framed.cons frame⟩
    · exact ⟨[], content, nil fun frame within => starts ⟨frame, within⟩⟩

end Framed

end LinuxCLearning
