import Mathlib.Data.List.Basic

/-!
# Streams cut anywhere

A stream that is a sequence of frames arrives in pieces: `buf` is what has arrived, `unread` what has
not.  A frame that has arrived whole can be taken off the front (`head_of_stream`), and one that has
not leaves only a beginning of itself in the buffer (`prefix_of_stream`).
-/

namespace IntvNetplay.Machine

variable {α : Type} {buf unread f : List α} {fs : List (List α)}

theorem head_of_stream (h : buf ++ unread = (f :: fs).flatten) (hl : f.length ≤ buf.length) :
    buf = f ++ buf.drop f.length ∧ buf.drop f.length ++ unread = fs.flatten := by
  rw [List.flatten_cons] at h
  obtain ⟨rest, hrest⟩ : f <+: buf :=
    List.prefix_of_prefix_length_le (List.prefix_append f _) (h ▸ List.prefix_append buf unread) hl
  subst hrest
  rw [List.append_assoc] at h
  simpa using List.append_cancel_left h

theorem prefix_of_stream (h : buf ++ unread = (f :: fs).flatten) (hl : buf.length < f.length) :
    buf = f.take buf.length := by
  rw [List.flatten_cons] at h
  have hp : buf <+: f :=
    List.prefix_of_prefix_length_le (h ▸ List.prefix_append buf unread) (List.prefix_append f _)
      (Nat.le_of_lt hl)
  exact List.prefix_iff_eq_take.1 hp

theorem buf_nil_of_stream (h : buf ++ unread = ([] : List (List α)).flatten) :
    buf = [] ∧ unread = [] := by
  simpa using h

end IntvNetplay.Machine
