import Mathlib.Data.List.TakeWhile
import Reckoner.Proofs.Command.Disk

/-!
# Names — what a results file is called

The stem of a name is cut off by a length, and this is right because the suffixes are the end of the
name: stem and suffixes together are the name again, and the stem has dots in front only. So the name of
the results is the name of the file with all dots made underscores but those in front, and two files of
one directory share their results exactly if that makes their names equal.
-/

namespace Reckoner.Command.Path

/-! ## Dots -/

/-- The dots in front of a name. -/
def frontDots (name : List Char) : List Char := name.takeWhile (· == '.')

/-- What follows the dots in front of a name. -/
def inner (name : List Char) : List Char := name.dropWhile (· == '.')

/-- An underscore for a dot, and every other character for itself. -/
def underscored (c : Char) : Char := if c = '.' then '_' else c

/-- A name with all dots made underscores but those in front. -/
def flattened (name : List Char) : List Char := frontDots name ++ (inner name).map underscored

theorem frontDots_append_inner (name : List Char) : frontDots name ++ inner name = name :=
  List.takeWhile_append_dropWhile

theorem map_underscored {cs : List Char} (h : '.' ∉ cs) : cs.map underscored = cs := by
  have hsame : ∀ c ∈ cs, underscored c = c := by
    intro c hc
    rw [underscored, if_neg (ne_of_mem_of_not_mem hc h)]
  rw [List.map_congr_left hsame, List.map_id']

theorem underscored_ne_dot (c : Char) : underscored c ≠ '.' := by
  unfold underscored
  split
  · decide
  · assumption

-- A flattened name has the dots in front of the name, and no others.
theorem frontDots_flattened (name : List Char) : frontDots (flattened name) = frontDots name := by
  have hdots : ∀ c ∈ name.takeWhile (· == '.'), (c == '.') = true := by
    intro c hc
    have hdot := List.mem_takeWhile_imp hc
    exact hdot
  have hrest : ((inner name).map underscored).takeWhile (· == '.') = [] := by
    cases inner name with
    | nil => rfl
    | cons c rest =>
      exact List.takeWhile_cons_of_neg (fun h => underscored_ne_dot c (beq_iff_eq.mp h))
  rw [frontDots, flattened, frontDots, List.takeWhile_append_of_pos hdots, hrest, List.append_nil]

/-! ## Stem and suffixes -/

-- A name that ends in a dot has no suffixes.
theorem resultsName_of_dot {name : List Char} (h : name.getLast? = some '.') :
    resultsName name = name ++ "_results.txt".toList := by
  have hnone : suffixes name = [] := if_pos h
  rw [resultsName, stem, hnone, List.flatten_nil, List.length_nil, Nat.sub_zero, List.take_length,
    List.map_nil, List.append_nil]

-- Behind the dots in front a name is a text without dots, and its suffixes.
theorem exists_inner_eq {name : List Char} (h : name.getLast? ≠ some '.') :
    ∃ first, '.' ∉ first ∧ inner name = first ++ (suffixes name).flatten := by
  have hsuffixes : suffixes name =
      ((Text.splitAt '.' (inner name)).drop 1).map ('.' :: ·) := if_neg h
  have hjoin : Text.join ['.'] (Text.splitAt '.' (inner name)) = inner name := Text.join_splitAt _
  cases hparts : Text.splitAt '.' (inner name) with
  | nil => exact absurd hparts (Text.splitAt_ne_nil _)
  | cons first rest =>
    rw [hparts, Text.join_cons] at hjoin
    refine ⟨first, Text.not_mem_of_mem_splitAt (hparts ▸ List.mem_cons_self), ?_⟩
    rw [hsuffixes, hparts, List.drop_one, List.tail_cons, hjoin]

-- What is cut off by its length is the end of the name.
theorem resultsName_of_not_dot {name : List Char} (h : name.getLast? ≠ some '.') :
    resultsName name = flattened name ++ "_results.txt".toList := by
  obtain ⟨first, hfirst, hinner⟩ := exists_inner_eq h
  have hname : name = (frontDots name ++ first) ++ (suffixes name).flatten := by
    rw [List.append_assoc, ← hinner, frontDots_append_inner]
  have hstem : stem name = frontDots name ++ first := by
    have hlength : name.length - (suffixes name).flatten.length =
        (frontDots name ++ first).length := by
      have htotal := congrArg List.length hname
      rw [List.length_append] at htotal
      omega
    rw [stem, hlength]
    exact (congrArg (List.take _) hname).trans List.take_left
  rw [resultsName, hstem, flattened, hinner, List.map_append, map_underscored hfirst,
    List.append_assoc (frontDots name)]
  rfl

/-! ## Results of files in one directory -/

/-- The directory that a path leads to the last name of. -/
def directory (p : Path) : Path := { p with names := p.names.dropLast }

theorem results?_eq {p : Path} {name : List Char} (h : p.name? = some name) :
    p.results? = some { p with names := p.names.dropLast ++ [resultsName name] } := by
  rw [results?, h, Option.map_some]

theorem name?_results {p output : Path} {name : List Char} (h : p.name? = some name)
    (houtput : p.results? = some output) :
    output.directory = p.directory ∧ output.name? = some (resultsName name) := by
  rw [results?_eq h, Option.some.injEq] at houtput
  subst houtput
  exact ⟨by rw [directory, List.dropLast_concat]; rfl, List.getLast?_concat⟩

/-- Files of one directory have the same results file exactly if it has the same name. -/
theorem results?_eq_iff {p other : Path} {name otherName : List Char} (h : p.name? = some name)
    (hother : other.name? = some otherName) (hbeside : p.directory = other.directory) :
    p.results? = other.results? ↔ resultsName name = resultsName otherName := by
  have hroot : p.directory.root = other.directory.root := congrArg root hbeside
  have hnames : p.directory.names = other.directory.names := congrArg names hbeside
  change p.root = other.root at hroot
  change p.names.dropLast = other.names.dropLast at hnames
  rw [results?_eq h, results?_eq hother, hroot, hnames]
  simp

/-- The results of a file go to the same directory, under another name: that of the file with every dot
but those in front made an underscore, or if it ends in a dot that of the file itself, and in both cases
with an ending. So unless their names end in a dot, two files of one directory share their results
exactly if they have as many dots in front and differ at most in dots for underscores. -/
theorem results?_of_name? {p : Path} {name : List Char} (h : p.name? = some name) :
    (∃ output, p.results? = some output ∧ output.directory = p.directory ∧ output ≠ p ∧
      output.name? = some
        ((if name.getLast? = some '.' then name else flattened name) ++ "_results.txt".toList)) ∧
    ∀ (other : Path) (otherName : List Char), other.name? = some otherName →
      p.directory = other.directory → name.getLast? ≠ some '.' → otherName.getLast? ≠ some '.' →
        (p.results? = other.results? ↔
          (frontDots name).length = (frontDots otherName).length ∧
            flattened name = flattened otherName) := by
  refine ⟨⟨_, results?_eq h, (name?_results h (results?_eq h)).1, ?_, ?_⟩, ?_⟩
  · intro heq
    have hlast := (name?_results h (results?_eq h)).2
    rw [heq, h, Option.some.injEq] at hlast
    exact resultsName_ne_self name hlast.symm
  · rw [(name?_results h (results?_eq h)).2]
    split
    · rename_i hdot
      rw [resultsName_of_dot hdot]
    · rename_i hdot
      rw [resultsName_of_not_dot hdot]
  · intro other otherName hother hbeside hdot hotherDot
    rw [results?_eq_iff h hother hbeside, resultsName_of_not_dot hdot,
      resultsName_of_not_dot hotherDot, List.append_cancel_right_eq]
    refine ⟨fun heq => ⟨?_, heq⟩, fun heq => heq.2⟩
    rw [← frontDots_flattened name, heq, frontDots_flattened]

/-- A dot between the parts of a name may be an underscore, but one in front counts. -/
theorem results?_of_name?_dots :
    (ofText "in/..ops.v2.txt").name? = some "..ops.v2.txt".toList ∧
      (∃ output, (ofText "in/..ops.v2.txt").results? = some output ∧
        output.name? = some "..ops_v2_txt_results.txt".toList) ∧
      (ofText "in/..ops.v2.txt").results? = (ofText "in/..ops_v2.txt").results? ∧
      (ofText "in/..ops.v2.txt").results? ≠ (ofText "in/.ops.v2.txt").results? := by
  have hname : (ofText "in/..ops.v2.txt").name? = some "..ops.v2.txt".toList := by decide +kernel
  obtain ⟨⟨output, houtput, -, -, hnamed⟩, hshared⟩ := results?_of_name? hname
  refine ⟨hname, ⟨output, houtput, hnamed.trans (by decide +kernel)⟩, ?_, fun hsame => ?_⟩
  · exact (hshared (ofText "in/..ops_v2.txt") "..ops_v2.txt".toList (by decide +kernel)
      (by decide +kernel) (by decide +kernel) (by decide +kernel)).mpr (by decide +kernel)
  · have hdots := ((hshared (ofText "in/.ops.v2.txt") ".ops.v2.txt".toList (by decide +kernel)
      (by decide +kernel) (by decide +kernel) (by decide +kernel)).mp hsame).1
    exact absurd hdots (by decide +kernel)

end Reckoner.Command.Path
