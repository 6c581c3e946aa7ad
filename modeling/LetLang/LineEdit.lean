import LetLang.Grapheme.Cluster

/-!
# Backspaces in a line

A line that does not come from a terminal may hold backspaces.  Each takes back
the character before it, as people see characters; one without a character before
it does nothing.  Main statement: a line without backspaces stays as it is.

That much is asked of any reader of lines, whatever it makes of backspaces.
-/

namespace LetLang
namespace LineEdit

/-- The backspace character. -/
def backspace : Char := '\x08'

/-- Takes one more cluster in: a backspace takes back the last one that is kept.
The kept clusters are in reverse order. -/
def keep (kept : List (List Char)) (cluster : List Char) : List (List Char) :=
  if cluster = [backspace] then kept.tail else cluster :: kept

/-- A line after its backspaces have had their effect. -/
def apply (line : String) : String :=
  String.ofList ((Grapheme.clusters line.toList).foldl keep []).reverse.flatten

/-- Clusters that are no backspaces are all kept. -/
theorem foldl_keep_of_forall_ne {clusters : List (List Char)}
    (h : ∀ cluster ∈ clusters, cluster ≠ [backspace]) (kept : List (List Char)) :
    clusters.foldl keep kept = clusters.reverse ++ kept := by
  induction clusters generalizing kept with
  | nil => rfl
  | cons cluster rest ih =>
    have hhead : keep kept cluster = cluster :: kept := by
      simp [keep, h cluster (by simp)]
    rw [List.foldl_cons, hhead, ih (fun c hc => h c (by simp [hc]))]
    simp

/-- A line without backspaces stays as it is. -/
theorem apply_of_not_mem {line : String} (h : backspace ∉ line.toList) :
    apply line = line := by
  have hne : ∀ cluster ∈ Grapheme.clusters line.toList, cluster ≠ [backspace] := by
    rintro cluster hmem rfl
    apply h
    rw [← Grapheme.flatten_clusters line.toList]
    exact List.mem_flatten.2 ⟨_, hmem, by simp⟩
  rw [apply, foldl_keep_of_forall_ne hne, List.append_nil, List.reverse_reverse,
    Grapheme.flatten_clusters, String.ofList_toList]

end LineEdit

/-- What hands on the lines of an input, and leaves lines without backspaces alone. -/
structure LineReader where
  /-- The line that is handed on for a line of the input. -/
  read : String → String
  /-- A line without backspaces is handed on as it is. -/
  read_of_not_mem : ∀ {line : String}, LineEdit.backspace ∉ line.toList → read line = line

/-- The reader in which backspaces take effect. -/
def LineEdit.reader : LineReader :=
  ⟨apply, apply_of_not_mem⟩

end LetLang
