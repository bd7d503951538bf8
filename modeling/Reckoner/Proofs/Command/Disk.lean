import Mathlib.Data.List.Infix
import Reckoner.Command.Disk

/-!
# Disk — where paths lead

What leads to a directory is a directory itself, so a path to a file ends with the name of the file:
two dots at its end would lead to a directory again, and no names at all to where paths begin.
The path for the results has another last name and leads to another place of the same directory.
-/

namespace Reckoner.Command

namespace Path

/-! ## Names of results -/

theorem length_lt_length_resultsName (name : List Char) :
    name.length < (resultsName name).length := by
  have hending : 0 < "_results.txt".toList.length := by decide
  rw [resultsName, stem, List.length_append, List.length_append, List.length_take, List.length_map]
  omega

theorem resultsName_ne_self (name : List Char) : resultsName name ≠ name := fun h =>
  absurd (congrArg List.length h) (Nat.ne_of_gt (length_lt_length_resultsName name))

theorem resultsName_ne_dots (name : List Char) : resultsName name ≠ ['.', '.'] := by
  have hending : "_results.txt".toList.getLast? = some 't' := by decide
  intro h
  have hlast := congrArg List.getLast? h
  rw [resultsName, List.getLast?_append, hending, Option.some_or] at hlast
  exact absurd hlast (by decide)

end Path

namespace Disk

variable {d : Disk} {place other : Place}

/-- No place is a file and a directory at once. -/
def IsTree (d : Disk) : Prop := ∀ file ∈ d.files, d.isDirectory file.1 = false

instance (d : Disk) : Decidable d.IsTree := inferInstanceAs (Decidable (∀ _ ∈ _, _))

/-! ## Directories -/

theorem leadsTo_iff : leadsTo place other = true ↔ place <+: other := by
  rw [leadsTo, beq_iff_eq, List.prefix_iff_eq_take]
  exact eq_comm

theorem isDirectory_iff :
    d.isDirectory place = true ↔ place <+: d.start ∨
      (∃ directory ∈ d.directories, place <+: directory) ∨
        ∃ file ∈ d.files, file.1 ≠ place ∧ place <+: file.1 := by
  simp only [isDirectory, Bool.or_eq_true, List.any_eq_true, Bool.and_eq_true, bne_iff_ne,
    leadsTo_iff, or_assoc]

-- What leads to a directory is a directory.
theorem isDirectory_of_prefix (h : place <+: other) (hother : d.isDirectory other = true) :
    d.isDirectory place = true := by
  rw [isDirectory_iff] at hother ⊢
  rcases hother with hstart | ⟨directory, hmem, hleads⟩ | ⟨file, hmem, hne, hleads⟩
  · exact .inl (h.trans hstart)
  · exact .inr (.inl ⟨directory, hmem, h.trans hleads⟩)
  · refine .inr (.inr ⟨file, hmem, ?_, h.trans hleads⟩)
    rintro rfl
    exact hne (h.eq_of_length_le hleads.length_le)

theorem isDirectory_origin (d : Disk) (p : Path) : d.isDirectory (origin d.start p) = true := by
  rw [isDirectory_iff, origin]
  split
  · exact .inl (List.prefix_refl _)
  · exact .inl List.nil_prefix

/-! ## Following names -/

theorem follow_append (back front rest : Place) :
    d.follow back (front ++ rest) =
      (d.follow back front).bind fun place => d.follow place.reverse rest := by
  induction front generalizing back with
  | nil => rw [follow, Option.bind_some, List.reverse_reverse, List.nil_append]
  | cons name front ih =>
    rw [List.cons_append, follow, follow]
    split_ifs
    · exact ih (step back name)
    · rfl

-- A name leads from a directory to a place in it.
theorem follow_name {back : Place} {name : List Char} (h : d.isDirectory back.reverse = true)
    (hdots : name ≠ ['.', '.']) : d.follow back [name] = some (back.reverse ++ [name]) := by
  rw [follow, if_pos h, follow, step, if_neg hdots, List.reverse_cons]

-- Two dots lead to a directory.
theorem isDirectory_of_follow_dots {back : Place} (h : d.follow back [['.', '.']] = some place) :
    d.isDirectory place = true := by
  rw [follow] at h
  split_ifs at h with hdirectory
  rw [follow, step, if_pos rfl, Option.some.injEq] at h
  rw [← h]
  refine isDirectory_of_prefix ?_ hdirectory
  rw [List.reverse_prefix]
  exact List.drop_suffix 1 back

/-! ## Files -/

-- A file that can be read is no directory.
theorem IsTree.isDirectory_eq_false (h : d.IsTree) {bytes : List UInt8}
    (hread : d.read? place = some bytes) : d.isDirectory place = false := by
  rcases List.lookup_eq_some_iff.mp hread with ⟨front, back, hfiles, -⟩
  refine h (place, bytes) ?_
  rw [hfiles]
  exact List.mem_append_right front List.mem_cons_self

/-- A path to a file leads to a place in a directory, and the path for its results to another place
there. -/
theorem exists_places (htree : d.IsTree) {p : Path} {bytes : List UInt8}
    (h : d.readPath? p = some bytes) :
    ∃ place output other, d.locate? p = some place ∧ p.results? = some output ∧
      d.locate? output = some other ∧ other ≠ place := by
  rw [readPath?] at h
  split at h
  · rename_i place hplace
    have hfile := htree.isDirectory_eq_false h
    have hlocate := hplace
    rw [locate?] at hplace
    rcases List.eq_nil_or_concat p.names with hnames | ⟨front, name, hnames⟩
    · -- Without names the path would lead to where it begins.
      rw [hnames, follow, List.reverse_reverse, Option.some.injEq] at hplace
      rw [← hplace, isDirectory_origin] at hfile
      exact nomatch hfile
    · rw [List.concat_eq_append] at hnames
      rw [hnames, follow_append] at hplace
      rcases Option.bind_eq_some_iff.mp hplace with ⟨directory, hdirectory, hname⟩
      have hdots : name ≠ ['.', '.'] := by
        rintro rfl
        rw [isDirectory_of_follow_dots hname] at hfile
        exact nomatch hfile
      have hparent : d.isDirectory directory.reverse.reverse = true := by
        rw [follow] at hname
        split_ifs at hname with hparent
        exact hparent
      rw [follow_name hparent hdots, Option.some.injEq] at hname
      refine ⟨place, ⟨p.root, front ++ [Path.resultsName name]⟩,
        directory.reverse.reverse ++ [Path.resultsName name], hlocate, ?_, ?_, ?_⟩
      · rw [Path.results?, Path.name?, hnames, List.getLast?_concat, List.dropLast_concat]
        rfl
      · rw [locate?, follow_append]
        show (d.follow (origin d.start p).reverse front).bind _ = _
        rw [hdirectory]
        exact follow_name hparent (Path.resultsName_ne_dots name)
      · rw [← hname]
        intro heq
        exact Path.resultsName_ne_self name
          (List.singleton_inj.mp (List.append_cancel_left heq))
  · exact nomatch h

theorem IsTree.exists_results? (htree : d.IsTree) {p : Path} {bytes : List UInt8}
    (h : d.readPath? p = some bytes) : ∃ output, p.results? = some output := by
  rcases exists_places htree h with ⟨_, output, _, _, houtput, _⟩
  exact ⟨output, houtput⟩

theorem IsTree.locate?_ne_of_results? (htree : d.IsTree) {p output : Path} {bytes : List UInt8}
    (h : d.readPath? p = some bytes) (houtput : p.results? = some output)
    (hplace : d.locate? output = some place) : d.locate? p ≠ some place := by
  rcases exists_places htree h with ⟨input, output', other, hinput, houtput', hother, hne⟩
  cases houtput.symm.trans houtput'
  rw [hinput, ← hplace, hother]
  exact fun heq => hne (Option.some.inj heq).symm

/-! ## Writing -/

/-- What is written is read back, and everything else is as before. -/
theorem read?_write (d : Disk) (place other : Place) (bytes : List UInt8) :
    (d.write place bytes).read? other =
      if other = place then some bytes else d.read? other := by
  rw [read?, write, List.lookup_append]
  by_cases hsame : other = place
  · subst hsame
    rw [if_pos rfl, List.lookup_eq_none_iff.mpr fun file hfile => ?_, Option.none_or,
      List.lookup_cons, beq_self_eq_true]
    have hne := (List.mem_filter.mp hfile).2
    rw [bne_iff_ne] at hne ⊢
    exact hne.symm
  · have hkept : (d.files.filter (·.1 != place)).lookup other = d.files.lookup other := by
      induction d.files with
      | nil => rfl
      | cons file files ih =>
        rcases file with ⟨name, content⟩
        by_cases hname : name = place
        · subst hname
          rw [List.filter_cons, if_neg fun h => absurd rfl (bne_iff_ne.mp h), ih, List.lookup_cons,
            beq_eq_false_iff_ne.mpr hsame]
        · rw [List.filter_cons, if_pos (bne_iff_ne.mpr hname), List.lookup_cons, List.lookup_cons, ih]
    have hnone : [(place, bytes)].lookup other = none := by
      rw [List.lookup_cons, beq_eq_false_iff_ne.mpr hsame]
      rfl
    rw [if_neg hsame, hkept, hnone, Option.or_none]
    rfl

end Disk

end Reckoner.Command
