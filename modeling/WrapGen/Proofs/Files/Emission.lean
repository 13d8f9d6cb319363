import WrapGen.Proofs.Files.Stored
import WrapGen.Proofs.Files.Tree

/-!
# Emission writes a prefix

The texts are written one after the other, to three different places, so that
what is written stays when the rest fails.

* `Destinations.Apart.distinct`: the three paths never lead to the same place.
* `Destinations.runOn_forM`: what is written of a list of units is a prefix of it.
* `Command.generateFiles_in_order`: generation leaves every file as it was, or
  writes the first few of the three texts and touches nothing else.
-/
namespace WrapGen

namespace Destinations

/-! ## Three places -/

/-- Every path has the extension of its unit. -/
def Apart (d : Destinations) : Prop :=
  ∀ u, ∃ p : Path, d.get u = p.withExtension (extension u)

theorem apart_ofBase (base : Path) (interface tests : Option Path) :
    Apart (ofBase base interface tests)
  | .implementation | .interface | .tests => ⟨_, rfl⟩

theorem extension_suffix : ∀ {u v : CodeUnit},
    '.' :: (extension u).toList <:+ '.' :: (extension v).toList → u = v := by
  have hall : ∀ u ∈ CodeUnit.all, ∀ v ∈ CodeUnit.all,
      '.' :: (extension u).toList <:+ '.' :: (extension v).toList → u = v := by decide
  intro u v
  exact hall u (by cases u <;> decide) v (by cases v <;> decide)

/-- A name ends in the extension of one unit at most. -/
theorem eq_of_suffix {u v : CodeUnit} {name : List Char}
    (hu : '.' :: (extension u).toList <:+ name) (hv : '.' :: (extension v).toList <:+ name) :
    u = v := by
  rcases List.suffix_or_suffix_of_suffix hu hv with hs | hs
  · exact extension_suffix hs
  · exact (extension_suffix hs).symm

variable {d : Destinations} {t t' : FileTree} {texts : PerUnit String} {us : List CodeUnit}

/-- The paths of two units never lead to the same place. -/
theorem Apart.distinct (h : Apart d) {u v : CodeUnit} {place : Place}
    (hu : t.placeToWrite (d.get u) = .ok place) (hv : t.placeToWrite (d.get v) = .ok place) :
    u = v := by
  have hname : ∀ w, t.placeToWrite (d.get w) = .ok place →
      ∃ name, place.getLast? = some name ∧ '.' :: (extension w).toList <:+ name.toList := by
    intro w hw
    obtain ⟨p, hp⟩ := h w
    rw [hp] at hw
    exact FileTree.placeToWrite_withExtension (by cases w <;> decide) (by cases w <;> decide) hw
  obtain ⟨name, hlast, hu⟩ := hname u hu
  obtain ⟨name', hlast', hv⟩ := hname v hv
  cases hlast.symm.trans hlast'
  exact eq_of_suffix hu hv

/-! ## What has been written -/

/-- Exactly the texts of some units have been written to their paths. -/
structure Written (d : Destinations) (texts : PerUnit String) (us : List CodeUnit)
    (t t' : FileTree) : Prop where
  /-- Their files hold their texts. -/
  placed : ∀ u ∈ us, ∃ place, t.placeToWrite (d.get u) = .ok place ∧
    t'.node? place = some (.file (texts.get u).toUTF8)
  /-- Everything else is as it was. -/
  others : ∀ place, (∀ u ∈ us, t.placeToWrite (d.get u) ≠ .ok place) →
    t'.node? place = t.node? place
  working : t'.working = t.working

theorem written_nil : Written d texts [] t t :=
  ⟨List.forall_mem_nil _, fun _ _ => rfl, rfl⟩

/-- Files are written where no directory is. -/
theorem Written.sameDirectories (h : Written d texts us t t') : t.SameDirectories t' where
  working := h.working
  directories place := by
    by_cases hu : ∃ u ∈ us, t.placeToWrite (d.get u) = .ok place
    · obtain ⟨u, hu, hplace⟩ := hu
      obtain ⟨place', hplace', hnode⟩ := h.placed u hu
      cases hplace.symm.trans hplace'
      obtain ⟨-, -, -, -, -, -, -, -, -, hno⟩ := FileTree.placeToWrite_eq_ok hplace
      rw [hnode]
      exact iff_of_false nofun hno
    · rw [h.others place fun u hm he => hu ⟨u, hm, he⟩]

/-- What is written to a path is read there. -/
theorem Written.read (h : Written d texts us t t') {u : CodeUnit} (hu : u ∈ us) :
    t'.read (d.get u) = .ok (texts.get u).toUTF8 := by
  obtain ⟨place, hplace, hnode⟩ := h.placed u hu
  exact FileTree.read_of_placeToWrite hplace h.sameDirectories hnode

/-- One more text is written beside the others. -/
theorem Written.concat (h : Written d texts us t t') (hd : Apart d) {u : CodeUnit} (hu : u ∉ us)
    {t'' : FileTree} (hw : t'.write (d.get u) (texts.get u) = .ok t'') :
    Written d texts (us ++ [u]) t t'' := by
  obtain ⟨place, hplace', hw⟩ := bind_eq_ok hw
  cases hw
  have hplace := (h.sameDirectories.placeToWrite (d.get u) place).mp hplace'
  have hroot : place ≠ [] := by
    obtain ⟨-, -, -, -, -, -, -, -, -, hno⟩ := FileTree.placeToWrite_eq_ok hplace
    rintro rfl
    exact hno rfl
  refine ⟨?_, fun other ho => ?_, h.working⟩
  · intro v hv
    rcases List.mem_append.mp hv with hv | hv
    · obtain ⟨other, hother, hnode⟩ := h.placed v hv
      refine ⟨other, hother, ?_⟩
      rw [FileTree.node?_put_of_ne ?_, hnode]
      rintro rfl
      exact hu (hd.distinct hplace hother ▸ hv)
    · cases List.mem_singleton.mp hv
      exact ⟨place, hplace, FileTree.node?_put_self hroot _⟩
  · have hother : other ≠ place := by
      rintro rfl
      exact ho u (List.mem_append_right _ (List.mem_singleton_self u)) hplace
    rw [FileTree.node?_put_of_ne hother]
    exact h.others other fun v hv => ho v (List.mem_append_left _ hv)

/-! ## Runs -/

variable {σ : Type} [FileSystem (StateM σ)] [StoresTree σ]

open StoresTree (tree)

/-- A unit is written whole or not at all. -/
theorem runOn_writeUnit (d : Destinations) (texts : PerUnit String) (u : CodeUnit) (s : σ) :
    (∃ s', runOn (d.writeUnit texts u) s = (.ok (), s') ∧
        (tree s).write (d.get u) (texts.get u) = .ok (tree s')) ∨
      ∃ cause s', runOn (d.writeUnit texts u) s = (.error ⟨d.get u, cause⟩, s') ∧
        tree s' = tree s := by
  have hrun : runOn (d.writeUnit texts u) s =
      (((FileSystem.write (d.get u) (texts.get u) : StateM σ _).run s).1.mapError
        (WriteError.mk (d.get u)),
       ((FileSystem.write (d.get u) (texts.get u) : StateM σ _).run s).2) := rfl
  rw [hrun]
  cases hw : ((FileSystem.write (d.get u) (texts.get u) : StateM σ _).run s).1 with
  | ok => exact Or.inl ⟨_, rfl, StoresTree.write_ok _ _ _ hw⟩
  | error e => exact Or.inr ⟨e, _, rfl, StoresTree.write_error _ _ _ _ hw⟩

/-- How far the writing of some units has come: the first `k` are written, and all
of them, or the next one could not be. -/
def Stops (d : Destinations) (todo : List CodeUnit) (k : Nat) (r : Except WriteError Unit) :
    Prop :=
  (k = todo.length ∧ r = .ok ()) ∨
    ∃ u cause, todo[k]? = some u ∧ r = .error ⟨d.get u, cause⟩

/-- What is written of a list of units is a prefix of it. -/
theorem runOn_forM (hd : Apart d) : ∀ {todo us : List CodeUnit} {s : σ}, (us ++ todo).Nodup →
    Written d texts us t (tree s) →
    ∃ k ≤ todo.length, ∃ r s', runOn (todo.forM (d.writeUnit texts)) s = (r, s') ∧
      Written d texts (us ++ todo.take k) t (tree s') ∧ d.Stops todo k r
  | [], us, s, _, h => ⟨0, Nat.le_refl 0, .ok (), s, rfl, by simpa using h, Or.inl ⟨rfl, rfl⟩⟩
  | u :: todo, us, s, hn, h => by
    have hcons : ((u :: todo).forM (d.writeUnit texts) : ExceptT WriteError (StateM σ) Unit) =
        d.writeUnit texts u >>= fun _ => todo.forM (d.writeUnit texts) := rfl
    rw [hcons]
    rcases runOn_writeUnit d texts u s with ⟨s₁, hrun, hw⟩ | ⟨cause, s₁, hrun, hkeep⟩
    · have hu : u ∉ us := fun hm => (List.nodup_append.mp hn).2.2 u hm u List.mem_cons_self rfl
      have hsplit : us ++ u :: todo = (us ++ [u]) ++ todo := by simp
      obtain ⟨k, hk, r, s', hrun', hwritten, hstops⟩ :=
        runOn_forM hd (hsplit ▸ hn) (h.concat hd hu hw)
      refine ⟨k + 1, Nat.succ_le_succ hk, r, s', ?_, by simpa using hwritten, ?_⟩
      · rw [runOn_bind_ok hrun, hrun']
      · exact hstops.imp (fun ⟨hlen, hr⟩ => ⟨congrArg Nat.succ hlen, hr⟩) id
    · refine ⟨0, Nat.zero_le _, _, s₁, runOn_bind_error hrun, ?_, Or.inr ⟨u, cause, rfl, rfl⟩⟩
      rw [hkeep]
      simpa using h

end Destinations

namespace Command

open StoresTree (tree)

theorem apart_destinations (manifest : Manifest) (o : GenerateOptions) :
    (destinations manifest o).Apart := by
  unfold destinations
  split
  · exact Destinations.apart_ofBase _ _ _
  · exact Destinations.apart_ofBase _ _ _

variable {σ : Type} [FileSystem (StateM σ)] [StoresTree σ]

/-- Generation that fails before it writes leaves every file as it was. Otherwise
its texts are those that the files lead to, and the first `k` of the three are
written to their paths and nothing else. It ends well if `k` is three, and
otherwise with the path of the text that could not be written. -/
theorem generateFiles_in_order (path : String) (o : GenerateOptions) (s : σ) :
    match runOn (prepare path o) s with
    | (.error e, s') => runOn (generateFiles path o) s = (.error e, s') ∧ tree s' = tree s
    | (.ok (manifest, texts), _) =>
      runOn (prepare path o) (tree s) = (.ok (manifest, texts), tree s) ∧
      let places := destinations manifest o
      ∃ k ≤ 3, ∃ r s', runOn (generateFiles path o) s = (r, s') ∧
        places.Written texts (CodeUnit.all.take k) (tree s) (tree s') ∧
        (∀ u ∈ CodeUnit.all.take k,
          (tree s').read (places.get u) = .ok (texts.get u).toUTF8) ∧
        (k = 3 ∧ r = .ok places ∨
          ∃ u cause, CodeUnit.all[k]? = some u ∧ r = .error (.write ⟨places.get u, cause⟩)) := by
  obtain ⟨hkeep, hsame⟩ := prepare_follows (σ := σ) path o s
  rw [generateFiles_eq]
  rcases hp : runOn (prepare path o) s with ⟨e | ⟨manifest, texts⟩, s₁⟩
  · rw [hp] at hkeep
    exact ⟨runOn_bind_error hp, hkeep⟩
  · refine ⟨hsame _ (by rw [hp]), ?_⟩
    replace hkeep : tree s₁ = tree s := by rw [← hkeep, hp]
    intro places
    rw [runOn_bind_ok hp]
    have hnodup : ([] ++ CodeUnit.all).Nodup := by decide
    have hnil : places.Written texts [] (tree s₁) (tree s₁) := Destinations.written_nil
    obtain ⟨k, hk, r, s', hrun, hwritten, hstops⟩ :=
      Destinations.runOn_forM (apart_destinations manifest o) hnodup hnil
    rw [hkeep] at hwritten
    have hwrite : runOn ((places.write texts).adapt CommandError.write) s₁ =
        (r.mapError .write, s') := by
      rw [runOn_adapt, show runOn (places.write texts) s₁ = (r, s') from hrun]
    rcases hstops with ⟨rfl, rfl⟩ | ⟨u, cause, hu, rfl⟩
    · exact ⟨3, hk, .ok places, s', runOn_bind_ok hwrite, hwritten, fun _ => hwritten.read,
        Or.inl ⟨rfl, rfl⟩⟩
    · exact ⟨k, hk, _, s', runOn_bind_error hwrite, hwritten, fun _ => hwritten.read,
        Or.inr ⟨u, cause, hu, rfl⟩⟩

/-- The third call, the write of the interface, is refused. -/
example : (runOn (generateFiles "m.json" .none) (⟨⟨[(["m.json"], .file "{}".toUTF8)], []⟩,
    [none, none, some .nameTooLong]⟩ : RefusingTree)).1 =
      .error (.write ⟨⟨"stlconverters.pxd"⟩, .nameTooLong⟩) := by decide +kernel

/-- A directory in place of the interface: only the implementation is written. -/
theorem generateFiles_in_order_directory :
    let t : FileTree :=
      ⟨[(["m.json"], .file "{}".toUTF8), (["stlconverters.pxd"], .directory)], []⟩
    let manifest := Manifest.empty
    ∃ texts t', runOn (generateFiles "m.json" .none) t =
        (.error (.write ⟨⟨"stlconverters.pxd"⟩, .isDirectory⟩), t') ∧
      (destinations manifest .none).Written texts [.implementation] t t' := by
  intro t manifest
  have hfail : (runOn (generateFiles "m.json" .none) t).1 =
      .error (.write ⟨⟨"stlconverters.pxd"⟩, .isDirectory⟩) := by decide +kernel
  have hmanifest : (runOn (prepare "m.json" .none) t).1.map Prod.fst = .ok manifest := by
    decide +kernel
  have h := generateFiles_in_order "m.json" .none t
  rcases hp : runOn (prepare "m.json" .none) t with ⟨e | ⟨found, texts⟩, t₁⟩
  · rw [hp] at hmanifest
    cases hmanifest
  · rw [hp] at h hmanifest
    rw [show found = manifest from Except.ok.inj hmanifest] at h
    obtain ⟨-, k, -, r, t', hrun, hwritten, -, hend⟩ := h
    rw [hrun] at hfail
    replace hfail : r = .error (.write ⟨⟨"stlconverters.pxd"⟩, .isDirectory⟩) := hfail
    subst hfail
    refine ⟨texts, t', hrun, ?_⟩
    rcases hend with ⟨-, hr⟩ | ⟨u, cause, hu, hr⟩
    · cases hr
    · -- of the three paths only the second is the one of the error
      have hpath : (⟨"stlconverters.pxd"⟩ : Path) = (destinations manifest .none).get u :=
        congrArg WriteError.path (CommandError.write.inj (Except.error.inj hr))
      match k, hu with
      | 0, hu =>
        cases hu
        exact absurd hpath (by decide)
      | 1, _ => exact hwritten
      | 2, hu =>
        cases hu
        exact absurd hpath (by decide)

end Command

end WrapGen
