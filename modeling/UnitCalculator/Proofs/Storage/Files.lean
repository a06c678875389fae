import UnitCalculator.Proofs.Failure
import UnitCalculator.Storage.Files

/-!
# Reading what was written

Writing puts a file where no directory was, so every directory stays one: the steps that led to the
file when it was written lead to it again.
-/

namespace UnitCalculator.Storage

/-- The text of a text's bytes. -/
theorem textOf_toUTF8 (text : String) : textOf text.toUTF8 = .ok text := by
  have h : text.toUTF8.IsValidUTF8 := text.isValidUTF8
  rw [textOf, String.fromUTF8?, dif_pos h]
  rfl

namespace FileStore

variable {store : FileStore} {place : Place} {bytes : ByteArray}

/-- The files behind a put: the others first, then the new one. -/
theorem lookup_put (other : Place) :
    (store.put place bytes).files.lookup other =
      if other = place then some bytes else store.files.lookup other := by
  have hf : (store.files.filter fun file => file.1 ≠ place).lookup other =
      if other = place then none else store.files.lookup other := by
    induction store.files with
    | nil => exact (ite_self _).symm
    | cons file files ih =>
      obtain ⟨key, value⟩ := file
      by_cases hk : key = place
      · rw [List.filter_cons_of_neg (by simpa using hk), ih, List.lookup_cons]
        by_cases ho : other = place
        · rw [if_pos ho, if_pos ho]
        · rw [if_neg ho, if_neg ho, beq_eq_false_iff_ne.mpr (fun h => ho (h.trans hk))]
      · rw [List.filter_cons_of_pos (by simpa using hk), List.lookup_cons, ih, List.lookup_cons]
        cases hb : other == key with
        | false => rfl
        | true => exact (if_neg fun h => hk ((eq_of_beq hb).symm.trans h)).symm
  rw [put, List.lookup_append, hf, List.lookup_cons, List.lookup_nil]
  by_cases ho : other = place
  · rw [if_pos ho, if_pos ho, beq_iff_eq.mpr ho]
    rfl
  · rw [if_neg ho, if_neg ho, beq_eq_false_iff_ne.mpr ho, Option.or_none]

/-- The file that was put at a place is there. -/
theorem content_put : (store.put place bytes).content? place = some (.file bytes) := by
  rw [content?, lookup_put, if_pos rfl]

/-- A directory is a place without a file that is the anchor or around a file. -/
theorem content_eq_directory_iff :
    store.content? place = some .directory ↔
      store.files.lookup place = none ∧
        (place.names = [] ∨ store.files.any fun file => file.1.isInside place) := by
  rw [content?]
  cases store.files.lookup place with
  | some bytes => exact ⟨nofun, nofun⟩
  | none =>
    refine ⟨fun h => ⟨rfl, ?_⟩, fun h => if_pos h.2⟩
    exact Decidable.byContradiction fun hn => nomatch (if_neg hn).symm.trans h

/-- Directories stay directories when a file is put at a place that was none. -/
theorem content_put_directory (hd : store.content? place ≠ some .directory) {other : Place}
    (ho : store.content? other = some .directory) :
    (store.put place bytes).content? other = some .directory := by
  have hne : other ≠ place := fun h => hd (h ▸ ho)
  obtain ⟨hl, hi⟩ := content_eq_directory_iff.mp ho
  refine content_eq_directory_iff.mpr ⟨by rw [lookup_put, if_neg hne, hl], hi.imp_right ?_⟩
  rw [List.any_eq_true, List.any_eq_true]
  rintro ⟨file, hfile, hin⟩
  by_cases hp : file.1 = place
  · exact ⟨(place, bytes), List.mem_append_right _ List.mem_cons_self, hp ▸ hin⟩
  · exact ⟨file, List.mem_append_left _ (List.mem_filter.mpr ⟨hfile, by simpa using hp⟩), hin⟩

/-- A name in a directory can be looked up exactly when it is short enough. -/
theorem find_eq_ok_iff {name : String} {found : Option Content} :
    store.find? place name = .ok found ↔
      name.utf8ByteSize ≤ nameBytes ∧ store.content? (place.into name) = found := by
  rw [find?]
  split
  · next h => exact ⟨nofun, fun hf => absurd hf.1 (Nat.not_le.mpr h)⟩
  · next h => exact ⟨fun hf => ⟨Nat.not_lt.mp h, Except.ok.inj hf⟩, fun hf => congrArg _ hf.2⟩

/-- A step that could be made can be made when a file was put where no directory was. -/
theorem walk_put (hd : store.content? place ≠ some .directory) {start stop : Place} {step : Step}
    (h : store.walk start step = .ok stop) :
    (store.put place bytes).walk start step = .ok stop := by
  cases step with
  | stay => exact h
  | up => exact h
  | into name =>
    obtain ⟨found, hf, h⟩ := bind_eq_ok_iff.mp h
    obtain ⟨hn, hc⟩ := find_eq_ok_iff.mp hf
    match found, h with
    | some .directory, h =>
      exact bind_eq_ok_iff.mpr
        ⟨_, find_eq_ok_iff.mpr ⟨hn, content_put_directory hd hc⟩, h⟩

/-- Steps that could be made can be made when a file was put where no directory was. -/
theorem foldlM_walk_put (hd : store.content? place ≠ some .directory) {start stop : Place}
    {steps : List Step} (h : steps.foldlM store.walk start = .ok stop) :
    steps.foldlM (store.put place bytes).walk start = .ok stop := by
  induction steps generalizing start with
  | nil => exact h
  | cons step steps ih =>
    rw [List.foldlM_cons] at h ⊢
    obtain ⟨next, hw, h⟩ := bind_eq_ok_iff.mp h
    exact bind_eq_ok_iff.mpr ⟨next, walk_put hd hw, ih h⟩

/-- A file is written if the path leads through directories to a name that stands for none. -/
theorem exists_of_write {saved : FileStore} {path : String}
    (h : store.write path bytes = .ok saved) :
    checkPath path = .ok () ∧ ∃ around name,
      store.directoryOf path.toList (splitSlashes path.toList) = .ok around ∧
      Step.ofPart ((splitSlashes path.toList).getLastD []) = .into name ∧
      name.utf8ByteSize ≤ nameBytes ∧ store.content? (around.into name) ≠ some .directory ∧
      saved = store.put (around.into name) bytes := by
  obtain ⟨⟨⟩, hcheck, h⟩ := bind_eq_ok_iff.mp h
  obtain ⟨around, hdir, h⟩ := bind_eq_ok_iff.mp h
  split at h
  · next name hstep =>
    split at h
    · cases h
    · next hlength =>
      obtain ⟨found, hfound, h⟩ := bind_eq_ok_iff.mp h
      obtain ⟨hname, hcontent⟩ := find_eq_ok_iff.mp hfound
      -- no part was left out at the end, so the parts are those that reading goes through
      have hparts : ((splitSlashes path.toList).reverse.dropWhile List.isEmpty).reverse =
          splitSlashes path.toList := by
        have hs := List.dropWhile_suffix (l := (splitSlashes path.toList).reverse) List.isEmpty
        rw [hs.eq_of_length_le (by simpa using hlength), List.reverse_reverse]
      rw [hparts] at hdir hstep
      refine ⟨hcheck, around, name, hdir, hstep, hname, ?_⟩
      rw [hcontent]
      match found, h with
      | none, h => exact ⟨nofun, (pure_eq_ok_iff.mp h).symm⟩
      | some (.file _), h => exact ⟨nofun, (pure_eq_ok_iff.mp h).symm⟩
  · cases h

/-- Bytes that were written at a path are read at this path. -/
theorem read_of_write {saved : FileStore} {path : String} (h : store.write path bytes = .ok saved) :
    saved.read path = .ok bytes := by
  obtain ⟨hcheck, around, name, hdir, hstep, hname, hcontent, rfl⟩ := exists_of_write h
  refine bind_eq_ok_iff.mpr ⟨(), hcheck, bind_eq_ok_iff.mpr
    ⟨around, foldlM_walk_put hcontent hdir, ?_⟩⟩
  rw [hstep]
  exact bind_eq_ok_iff.mpr ⟨_, find_eq_ok_iff.mpr ⟨hname, content_put⟩, rfl⟩

/-- Writing through the access succeeds only if the store could be written. -/
theorem write_of_run {saved : FileStore} {path : String}
    (h : (access.write path bytes).run store = (.ok (), saved)) :
    store.write path bytes = .ok saved := by
  cases hw : store.write path bytes with
  | ok written =>
    have hrun : (access.write path bytes).run store = (.ok (), written) := by
      simp only [access, bind_pure_comp, StateT.run_bind, StateT.run_get, pure_bind, hw,
        StateT.run_map, StateT.run_set, map_pure]
      rfl
    rw [(Prod.mk.inj (hrun.symm.trans h)).2]
  | error fault =>
    have hrun : (access.write path bytes).run store = (.error fault, store) := by
      simp only [access, StateT.run_bind, StateT.run_get, pure_bind, hw, StateT.run_pure]
      rfl
    cases (Prod.mk.inj (hrun.symm.trans h)).1

/-- A text that was written at a path is read at this path, and reading changes no file. -/
theorem readText_of_write {saved : FileStore} {path text : String}
    (h : (access.write path text.toUTF8).run store = (.ok (), saved)) :
    (access.readText path).run saved = (.ok text, saved) := by
  have hr : (access.readText path).run saved = (saved.read path >>= textOf, saved) := rfl
  rw [hr, read_of_write (write_of_run h)]
  exact congrArg (·, saved) (textOf_toUTF8 text)

end FileStore

end UnitCalculator.Storage
