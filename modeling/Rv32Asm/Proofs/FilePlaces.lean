import Rv32Asm.Command.Files
import Rv32Asm.Proofs.Outcome

/-!
Where paths lead.

A path starts at the root or in the working directory and walks from name to name, up and down. A
file that is written is found again by the same path, and every other place stays as it was.
-/

set_option autoImplicit false
set_option relaxedAutoImplicit false

namespace Rv32Asm.Command

open Rv32Asm.Outcome

structure Usable (path : String) : Prop where
  whole : '\x00' ∉ path.toList
  nonempty : path ≠ ""
  short : path.utf8ByteSize < 4096

theorem Route.ofPath_eq_ok_iff {path : String} {route : Route} :
    Route.ofPath path = .ok route ↔ Usable path ∧ route =
      { absolute := path.toList.head? = some '/', front := (names path).dropLast,
        last := (names path).getLastD ".", slash := path.toList.getLast? = some '/' } := by
  unfold Route.ofPath
  constructor
  · intro parsed
    split at parsed
    · simp at parsed
    split at parsed
    · simp at parsed
    split at parsed
    · simp at parsed
    rename_i whole nonempty short
    exact ⟨⟨by simpa using whole, nonempty, Nat.not_le.mp short⟩, (Except.ok.inj parsed).symm⟩
  · rintro ⟨usable, rfl⟩
    have whole : path.toList.contains '\x00' = false := by simpa using usable.whole
    rw [whole, if_neg (by simp), if_neg usable.nonempty, if_neg (Nat.not_le.mpr usable.short)]

namespace FileSet

variable {fs fs' : FileSet} {path name : String} {steps : List String}
  {place directory next : Path} {content : Bytes}

inductive Walks (fs : FileSet) : Path → List String → Path → Prop
  | here (directory : Path) : Walks fs directory [] directory
  | stay {directory next : Path} {steps : List String} (rest : Walks fs directory steps next) :
      Walks fs directory ("." :: steps) next
  | up {directory next : Path} {steps : List String}
      (rest : Walks fs directory.dropLast steps next) :
      Walks fs directory (".." :: steps) next
  | down {directory next : Path} {name : String} {steps : List String}
      (plain : isDots name = false) (short : name.utf8ByteSize ≤ 255)
      (found : fs.find? (directory ++ [name]) = some .directory)
      (rest : Walks fs (directory ++ [name]) steps next) :
      Walks fs directory (name :: steps) next

def start (fs : FileSet) (path : String) : Path :=
  if path.toList.head? = some '/' then [] else fs.here

/-- The place of a file with this path: a name in a directory that the names before it lead to. -/
def Leads (fs : FileSet) (path : String) (place : Path) : Prop :=
  Usable path ∧ path.toList.getLast? ≠ some '/' ∧ ∃ front last above,
    names path = front ++ [last] ∧ fs.Walks (fs.start path) front above ∧
    isDots last = false ∧ last.utf8ByteSize ≤ 255 ∧ place = above ++ [last]

def Holds (fs : FileSet) (path : String) (content : Bytes) : Prop :=
  ∃ place, fs.Leads path place ∧ fs.find? place = some (.file content)

theorem Leads.ne_nil (leads : fs.Leads path place) : place ≠ [] := by
  obtain ⟨-, -, front, last, above, -, -, -, -, rfl⟩ := leads
  simp

section Insert

theorem lookup_cons_eq_ite (key other : Path) (node : Node) (entries : List (Path × Node)) :
    ((key, node) :: entries).lookup other =
      if other = key then some node else entries.lookup other := by
  rw [List.lookup_cons]
  by_cases same : other = key
  · simp [same]
  · have differs : (other == key) = false := by simpa using same
    simp [differs, same]

theorem lookup_replace (entries : List (Path × Node)) (place other : Path) (node : Node) :
    (entries.filter (fun entry => entry.1 != place) ++ [(place, node)]).lookup other =
      if other = place then some node else entries.lookup other := by
  induction entries with
  | nil => exact lookup_cons_eq_ite place other node []
  | cons entry entries ih =>
    obtain ⟨key, old⟩ := entry
    by_cases replaced : key = place
    · rw [List.filter_cons_of_neg (by simp [replaced]), ih, lookup_cons_eq_ite]
      grind
    · rw [List.filter_cons_of_pos (by simp [replaced]), List.cons_append, lookup_cons_eq_ite, ih,
        lookup_cons_eq_ite]
      grind

theorem find?_insert (named : place ≠ []) (node : Node) (other : Path) :
    (fs.insert place node).find? other = if other = place then some node else fs.find? other := by
  cases other with
  | nil => simp [find?, named.symm]
  | cons first rest => exact lookup_replace fs.entries place (first :: rest) node

end Insert

section Walk

theorem child?_eq_ok_iff {found : Option Node} :
    fs.child? directory name = .ok found ↔
      name.utf8ByteSize ≤ 255 ∧ found = fs.find? (directory ++ [name]) := by
  unfold child?
  by_cases long : 255 < name.utf8ByteSize
  · simp [long, Nat.not_le.mpr long]
  · simp [long, Nat.not_lt.mp long, eq_comm]

theorem enter_eq_ok_iff :
    fs.enter directory name = .ok next ↔
      name = "." ∧ next = directory ∨ name = ".." ∧ next = directory.dropLast ∨
        isDots name = false ∧ name.utf8ByteSize ≤ 255 ∧
          fs.find? (directory ++ [name]) = some .directory ∧ next = directory ++ [name] := by
  by_cases here : name = "."
  · subst here
    simp [enter, isDots, pure, Except.pure, eq_comm]
  by_cases up : name = ".."
  · subst up
    simp [enter, isDots, pure, Except.pure, eq_comm]
  have plain : isDots name = false := by simp [isDots, here, up]
  rw [enter, if_neg here, if_neg up]
  simp only [here, up, plain, false_and, false_or, true_and, bind_eq_ok_iff, child?_eq_ok_iff]
  constructor
  · rintro ⟨found, ⟨short, rfl⟩, entered⟩
    split at entered <;> simp_all [throw_ne_ok, pure_eq_ok_iff]
  · rintro ⟨short, found, rfl⟩
    exact ⟨_, ⟨short, rfl⟩, by simp [found, pure, Except.pure]⟩

theorem foldlM_enter_eq_ok_iff :
    steps.foldlM fs.enter directory = .ok next ↔ fs.Walks directory steps next := by
  induction steps generalizing directory with
  | nil =>
    rw [List.foldlM_nil, pure_eq_ok_iff]
    constructor
    · rintro rfl
      exact .here directory
    · rintro ⟨⟩
      rfl
  | cons name steps ih =>
    simp only [List.foldlM_cons, bind_eq_ok_iff, enter_eq_ok_iff, ih]
    constructor
    · rintro ⟨middle, ⟨rfl, rfl⟩ | ⟨rfl, rfl⟩ | ⟨plain, short, found, rfl⟩, rest⟩
      · exact .stay rest
      · exact .up rest
      · exact .down plain short found rest
    · intro walks
      cases walks with
      | stay rest => exact ⟨_, .inl ⟨rfl, rfl⟩, rest⟩
      | up rest => exact ⟨_, .inr (.inl ⟨rfl, rfl⟩), rest⟩
      | down plain short found rest => exact ⟨_, .inr (.inr ⟨plain, short, found, rfl⟩), rest⟩

/-- A walk reaches the same directory wherever the directories are kept. -/
theorem Walks.of_kept
    (kept : ∀ place, fs.find? place = some .directory → fs'.find? place = some .directory)
    (walks : fs.Walks directory steps next) : fs'.Walks directory steps next := by
  induction walks with
  | here directory => exact .here directory
  | stay _ ih => exact .stay ih
  | up _ ih => exact .up ih
  | down plain short found _ ih => exact .down plain short (kept _ found) ih

end Walk

section Leads

theorem leads_iff_walk :
    fs.Leads path place ↔ ∃ route above, Route.ofPath path = .ok route ∧
      fs.walk route = .ok above ∧ isDots route.last = false ∧ route.slash = false ∧
      route.last.utf8ByteSize ≤ 255 ∧ place = above ++ [route.last] := by
  simp only [Route.ofPath_eq_ok_iff]
  constructor
  · rintro ⟨usable, bare, front, last, above, split, walks, plain, short, rfl⟩
    refine ⟨_, above, ⟨usable, rfl⟩, ?_⟩
    simp only [walk, split, List.dropLast_concat, List.getLastD_concat, plain, short, true_and,
      foldlM_enter_eq_ok_iff, decide_eq_true_eq, decide_eq_false_iff_not, bare, not_false_iff]
    exact ⟨walks, trivial⟩
  · rintro ⟨route, above, ⟨usable, rfl⟩, walked, plain, bare, short, rfl⟩
    rcases List.eq_nil_or_concat (names path) with none | ⟨front, last, split⟩
    · simp [none, isDots] at plain
    · rw [List.concat_eq_append] at split
      simp only [walk, split, List.dropLast_concat, List.getLastD_concat, foldlM_enter_eq_ok_iff,
        decide_eq_true_eq, decide_eq_false_iff_not] at walked plain bare short ⊢
      exact ⟨usable, bare, front, last, above, split, walked, plain, short, rfl⟩

theorem Leads.of_kept
    (kept : ∀ place, fs.find? place = some .directory → fs'.find? place = some .directory)
    (same : fs'.here = fs.here) (leads : fs.Leads path place) : fs'.Leads path place := by
  obtain ⟨usable, bare, front, last, above, split, walks, rest⟩ := leads
  refine ⟨usable, bare, front, last, above, split, ?_, rest⟩
  rw [start, same]
  exact walks.of_kept kept

theorem node_eq_file_iff : fs.node path = .ok (.file content) ↔ fs.Holds path content := by
  simp only [Holds, leads_iff_walk, node, bind_eq_ok_iff]
  constructor
  · rintro ⟨route, parsed, above, walked, read⟩
    by_cases dots : isDots route.last = true
    · simp [dots, pure_eq_ok_iff] at read
    rw [if_neg dots, bind_eq_ok_iff] at read
    obtain ⟨found, child, read⟩ := read
    obtain ⟨short, rfl⟩ := child?_eq_ok_iff.mp child
    cases found : fs.find? (above ++ [route.last]) with
    | none => simp [found, throw_ne_ok] at read
    | some node =>
      cases node with
      | directory => simp [found, pure_eq_ok_iff] at read
      | file old =>
        cases bare : route.slash with
        | true => simp [found, bare, throw_ne_ok] at read
        | false =>
          obtain rfl : old = content := by simpa [found, bare, pure_eq_ok_iff] using read
          exact ⟨_, ⟨route, above, parsed, walked, by simpa using dots, bare, short, rfl⟩, found⟩
  · rintro ⟨place, ⟨route, above, parsed, walked, plain, bare, short, rfl⟩, found⟩
    refine ⟨route, parsed, above, walked, ?_⟩
    rw [if_neg (by simp [plain]), bind_eq_ok_iff]
    exact ⟨_, child?_eq_ok_iff.mpr ⟨short, rfl⟩, by simp [found, bare, pure, Except.pure]⟩

theorem write_eq_ok_iff {written : FileSet} :
    fs.write path content = .ok written ↔
      ∃ place, fs.Leads path place ∧ fs.find? place ≠ some .directory ∧
        written = fs.insert place (.file content) := by
  simp only [leads_iff_walk, write, bind_eq_ok_iff]
  constructor
  · rintro ⟨route, parsed, above, walked, wrote⟩
    by_cases closed : (isDots route.last || route.slash) = true
    · simp [closed, throw_bind, throw_ne_ok] at wrote
    obtain ⟨plain, bare⟩ : isDots route.last = false ∧ route.slash = false := by
      simpa using closed
    rw [if_neg closed, bind_eq_ok_iff] at wrote
    obtain ⟨found, child, wrote⟩ := wrote
    obtain ⟨short, rfl⟩ := child?_eq_ok_iff.mp child
    refine ⟨_, ⟨route, above, parsed, walked, plain, bare, short, rfl⟩, ?_⟩
    split at wrote <;> simp_all [throw_ne_ok, pure_eq_ok_iff]
  · rintro ⟨place, ⟨route, above, parsed, walked, plain, bare, short, rfl⟩, free, rfl⟩
    refine ⟨route, parsed, above, walked, ?_⟩
    rw [if_neg (by simp [plain, bare]), bind_eq_ok_iff]
    refine ⟨_, child?_eq_ok_iff.mpr ⟨short, rfl⟩, ?_⟩
    split <;> simp_all [pure, Except.pure]

/-- After a file is written its path leads to the content, and every other place is as before. -/
theorem find?_write (leads : fs.Leads path place) (free : fs.find? place ≠ some .directory) :
    (fs.insert place (.file content)).Holds path content ∧
      (fs.insert place (.file content)).find? place = some (.file content) ∧
      ∀ other, other ≠ place → (fs.insert place (.file content)).find? other = fs.find? other := by
  have found := @find?_insert fs place leads.ne_nil (.file content)
  have here : (fs.insert place (.file content)).find? place = some (.file content) := by
    rw [found, if_pos rfl]
  have elsewhere : ∀ other, other ≠ place →
      (fs.insert place (.file content)).find? other = fs.find? other := by
    intro other differs
    rw [found, if_neg differs]
  -- The walk only passes directories, and the place of the file was none.
  have kept : ∀ other, fs.find? other = some .directory →
      (fs.insert place (.file content)).find? other = some .directory := by
    intro other directory
    have differs : other ≠ place := by
      rintro rfl
      exact free directory
    rw [elsewhere other differs, directory]
  exact ⟨⟨place, leads.of_kept kept rfl, here⟩, here, elsewhere⟩

end Leads

end FileSet

end Rv32Asm.Command
