import Brushwork.CommandLine.Directory
import Brushwork.Proofs.Refusal

/-!
# Files before and after writing

Whether a path can be written to does not depend on the text. Writing changes the one
file that the path leads to, if that is one of the directory, which then holds the text,
and no other.
-/

namespace Brushwork.CommandLine

/-- The file of the directory that a path leads to. -/
def Place.file? : Place → Option Text
  | .name true own .nothing => some own
  | _ => none

namespace Directory

variable {directory after : Directory} {path text : Text}

def put (directory : Directory) (name text : Text) : Directory :=
  ⟨(name, (String.ofList text).toUTF8) :: directory.files.filter fun file => file.1 ≠ name⟩

theorem contents?_put (directory : Directory) (name text other : Text) :
    (directory.put name text).contents? other =
      if name = other then some (String.ofList text).toUTF8 else directory.contents? other := by
  by_cases hname : name = other
  · rw [if_pos hname, contents?, put, List.find?_cons_of_pos (by simpa using hname)]
    rfl
  · rw [if_neg hname, contents?, put, List.find?_cons_of_neg (by simpa using hname),
      List.find?_filter]
    congr 2
    funext file
    by_cases hfile : file.1 = other
    · simp [hfile, Ne.symm hname]
    · simp [hfile]

/-- A file is written under the name that a path leads to, once that name has been looked up. -/
theorem write_of_nothing {here : Bool} {name : Text}
    (h : place path = .ok (.name here name .nothing)) (directory : Directory) (text : Text) :
    directory.write path text = (directory.lookUp here name).map fun _ =>
      if here then directory.put name text else directory := by
  rw [write, h, ok_bind]
  dsimp only
  cases directory.lookUp here name with
  | error fault => rfl
  | ok found => cases here <;> rfl

/-- Nothing is written beyond a name. -/
theorem exists_write_of_pieces {here : Bool} {name : Text}
    (h : place path = .ok (.name here name .pieces)) (directory : Directory) :
    ∃ fault, ∀ text, directory.write path text = .error fault := by
  simp only [write, h, ok_bind]
  cases directory.lookUp here name with
  | error fault => exact ⟨fault, fun _ => rfl⟩
  | ok found =>
    cases found with
    | none => exact ⟨.missing, fun _ => rfl⟩
    | some bytes => exact ⟨.notDirectory, fun _ => rfl⟩

/-- A path is refused for writing whatever the text, or it leads to a name to write under. -/
theorem write_cases (directory : Directory) (path : Text) :
    (∃ fault, ∀ text, directory.write path text = .error fault) ∨
      ∃ here name, Place.ofPath path = .name here name .nothing ∧
        ∀ text, directory.write path text =
          .ok (if here then directory.put name text else directory) := by
  by_cases hpath : longestPath < byteCount path
  · exact .inl ⟨.nameTooLong, fun text => by rw [write, place, if_pos hpath]; rfl⟩
  · have hok : place path = .ok (.ofPath path) := if_neg hpath
    cases hplace : Place.ofPath path with
    | directory => exact .inl ⟨.isDirectory, fun text => by rw [write, hok, hplace]; rfl⟩
    | name here name onward =>
      rw [hplace] at hok
      cases onward with
      | slashes => exact .inl ⟨.isDirectory, fun text => by rw [write, hok]; rfl⟩
      | pieces => exact .inl (exists_write_of_pieces hok directory)
      | nothing =>
        simp only [write_of_nothing hok]
        cases directory.lookUp here name with
        | error fault => exact .inl ⟨fault, fun _ => rfl⟩
        | ok found => exact .inr ⟨here, name, rfl, fun _ => rfl⟩

/-- A path that is refused with one text is refused with every other. -/
theorem write_eq_error {fault : FileFault}
    (h : directory.write path text = .error fault) (other : Text) :
    directory.write path other = .error fault := by
  rcases directory.write_cases path with ⟨fault', hrefused⟩ | ⟨here, name, -, hwrite⟩
  · rw [hrefused] at h ⊢
    exact h
  · rw [hwrite] at h
    cases h

theorem contents?_write (h : directory.write path text = .ok after) (name : Text) :
    after.contents? name = if (Place.ofPath path).file? = some name
      then some (String.ofList text).toUTF8 else directory.contents? name := by
  rcases directory.write_cases path with ⟨fault, hrefused⟩ | ⟨here, own, hplace, hwrite⟩
  · rw [hrefused] at h
    cases h
  · rw [hwrite] at h
    obtain rfl := Except.ok.inj h
    rw [hplace]
    cases here with
    | false => rfl
    | true => simp [contents?_put, Place.file?]

end Directory

end Brushwork.CommandLine
