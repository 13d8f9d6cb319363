import WrapGen.Proofs.Wrapper.Atomicity

/-!
# Ways to fill a container

A container gets its items when it is created from a host collection, or it is created
empty and the items are inserted one after the other, or the collection is converted as
a value of the container's type. All three convert the same values in the same order
and stop at the first that cannot be converted.

An insertion into a container just created changes its content alone
(`run_put_created`, `run_add_created`), so a run of insertions is a fold over contents
(`runEach_insertions`), and such a fold is how a container is filled at once.

* `fillings_agree`: the three ways give one store and one storage value, or the same
  first fault; of several entries with one key the last stays.
-/
namespace WrapGen

/-! ## Collections -/

namespace HostValue

/-- A list or a tuple of two values. -/
inductive IsPair : HostValue → HostValue × HostValue → Prop
  | list (k v : HostValue) : IsPair (.list [k, v]) (k, v)
  | tuple (k v : HostValue) : IsPair (.tuple [k, v]) (k, v)

/-- A dict, or a sequence of pairs, with its entries in order. -/
inductive HasEntries : HostValue → List (HostValue × HostValue) → Prop
  | dict (entries : List (HostValue × HostValue)) : HasEntries (.dict entries) entries
  | list {items : List HostValue} {entries : List (HostValue × HostValue)}
    (h : List.Forall₂ IsPair items entries) : HasEntries (.list items) entries
  | tuple {items : List HostValue} {entries : List (HostValue × HostValue)}
    (h : List.Forall₂ IsPair items entries) : HasEntries (.tuple items) entries

/-- A list, a tuple or a set, with its items in order. -/
inductive HasItems : HostValue → List HostValue → Prop
  | list (items : List HostValue) : HasItems (.list items) items
  | tuple (items : List HostValue) : HasItems (.tuple items) items
  | set (items : List HostValue) : HasItems (.set items) items

end HostValue

namespace Content

variable {type : WrappedType} {v : HostValue}

theorem pairs_of_forall₂ {items : List HostValue} {entries : List (HostValue × HostValue)}
    (h : List.Forall₂ HostValue.IsPair items entries) : pairs type items = .ok entries :=
  mapM_eq_ok_iff.mpr <| h.imp fun _ _ hpair => by cases hpair <;> rfl

theorem entriesOf_of_hasEntries {entries : List (HostValue × HostValue)}
    (h : v.HasEntries entries) : entriesOf type v = .ok entries := by
  cases h with
  | dict => rfl
  | list h => exact pairs_of_forall₂ h
  | tuple h => exact pairs_of_forall₂ h

theorem itemsOf_of_hasItems {items : List HostValue} (h : v.HasItems items) :
    itemsOf type v = .ok items := by
  cases h <;> rfl

/-- A content made from entries holds them converted. -/
theorem exists_stored_of_ofHost {k t : ElementType} {entries : List (HostValue × HostValue)}
    {content : Content} (hv : v.HasEntries entries) (h : ofHost (.map k t) v = .ok content) :
    ∃ stored, content = map (Ordered.ofList Prod.fst stored) ∧
      List.Forall₂ (fun entry d => k.toDatum entry.1 = .ok d.1 ∧ t.toDatum entry.2 = .ok d.2)
        entries stored := by
  obtain ⟨found, hfound, h⟩ := bind_eq_ok h
  cases (entriesOf_of_hasEntries hv).symm.trans hfound
  obtain ⟨stored, hstored, h⟩ := bind_eq_ok h
  cases h
  refine ⟨stored, rfl, (forall₂_of_mapM hstored).imp fun entry d hd => ?_⟩
  obtain ⟨x, hx, hd⟩ := bind_eq_ok hd
  obtain ⟨y, hy, hd⟩ := bind_eq_ok hd
  cases hd
  exact ⟨hx, hy⟩

/-- Of several entries with one key the last is found. -/
theorem get?_ofList (entries : List (Datum × Datum)) (x : Datum) :
    (map (Ordered.ofList Prod.fst entries)).get? x =
      (Ordered.find? Prod.fst x entries.reverse).map Prod.snd :=
  congrArg (Option.map Prod.snd) (Ordered.find?_ofList x entries)

end Content

namespace Store

/-! ## Filling -/

section
variable (c : Catalog) (s : Store)

/-- Runs operations one after the other, up to the first that is refused. -/
def runEach (ops : List Operation) : Except Refusal Store :=
  ops.foldlM (fun s op => return (← s.run c op).1) s

/-- Creates a container from a host collection. -/
def fillAtOnce (id : String) (type : WrappedType) (v : HostValue) : Except Refusal Store :=
  s.runEach c [.create id type .permissive (.host v)]

/-- Creates an empty container and runs insertions. -/
def fillStepwise (id : String) (type : WrappedType) (insertions : List Operation) :
    Except Refusal Store :=
  s.runEach c (.create id type .permissive .empty :: insertions)

end

/-- The store with a new container, and a name bound to its owner. -/
def created (s : Store) (id : String) (type : WrappedType) (content : Content) : Store :=
  { s with
    contents := s.contents ++ [content]
    wrappers := rebind id ⟨type, .permissive, s.contents.length, true⟩ s.wrappers }

variable {c : Catalog} {s : Store} {id : String} {type : WrappedType} {k t e : ElementType}

/-! ## A container just created -/

theorem contentAt_created (content : Content) :
    (s.created id type content).contentAt s.contents.length = content := by
  show (s.contents ++ [content])[s.contents.length]?.getD _ = content
  rw [List.getElem?_concat_length]
  rfl

theorem setContent_created (content content' : Content) :
    (s.created id type content).setContent s.contents.length content' =
      s.created id type content' := by
  unfold setContent created
  rw [List.set_append_right _ _ le_rfl, Nat.sub_self]
  rfl

theorem isLive_created (content : Content) :
    (s.created id type content).isLive s.contents.length = true := by
  unfold isLive created rebind
  rw [List.any_cons, beq_self_eq_true]
  rfl

theorem run_put_created (content : Content) (entry : HostValue × HostValue) :
    (do return (← (s.created id (.map k t) content).run c (.put id entry.1 entry.2)).1) =
      (do return s.created id (.map k t) (← refuse do
        let stored ← Content.storeEntry k t entry
        return content.put stored.1 stored.2)) := by
  rw [run, mapWrapper_bind lookup_rebind_self rfl]
  dsimp only
  rw [content_bind (isLive_created content), contentAt_created]
  unfold Content.storeEntry
  cases k.toDatum entry.1 with
  | error f => rfl
  | ok x =>
    cases t.toDatum entry.2 with
    | error f => rfl
    | ok y => exact congrArg Except.ok (setContent_created content _)

theorem run_add_created (content : Content) (v : HostValue) :
    (do return (← (s.created id (.set e) content).run c (.add id v)).1) =
      (do return s.created id (.set e) (← refuse do return content.add (← e.toDatum v))) := by
  rw [run, setWrapper_bind lookup_rebind_self rfl]
  dsimp only
  rw [content_bind (isLive_created content), contentAt_created]
  cases e.toDatum v with
  | error f => rfl
  | ok x => exact congrArg Except.ok (setContent_created content _)

/-- A run of insertions into a container just created is a fold over its contents. -/
theorem runEach_insertions {α : Type} {op : α → Operation} {f : Content → α → Except Fault Content}
    (h : ∀ content x, (do return (← (s.created id type content).run c (op x)).1) =
      (do return s.created id type (← refuse (f content x)))) :
    ∀ (xs : List α) (content : Content), (s.created id type content).runEach c (xs.map op) =
      (do return s.created id type (← refuse (xs.foldlM f content)))
  | [], _ => rfl
  | x :: xs, content => by
    unfold runEach
    rw [List.map_cons, List.foldlM_cons, h content x, List.foldlM_cons]
    cases f content x with
    | error fault => rfl
    | ok content' => exact runEach_insertions h xs content'

/-! ## The three ways -/

/-- A container is created with the content that the collection gives. -/
theorem fillAtOnce_eq (hk : type.keyType.isKey = true) (v : HostValue) :
    s.fillAtOnce c id type v =
      (do return s.created id type (← refuse (Content.ofHost type v))) := by
  unfold fillAtOnce runEach
  rw [List.foldlM_cons, run, build, checked_of_isKey hk]
  cases hv : Content.ofHost type v with
  | error f => simp only [bind, Except.bind, hv]; rfl
  | ok content => simp only [bind, Except.bind, hv]; rfl

/-- Insertions after an empty start are those into a container just created. -/
theorem fillStepwise_eq (hk : type.keyType.isKey = true) (insertions : List Operation) :
    s.fillStepwise c id type insertions =
      (s.created id type (Content.empty type)).runEach c insertions := by
  unfold fillStepwise
  rw [runEach, List.foldlM_cons, run, build, checked_of_isKey hk]
  rfl

/-- Filling a map at once ends as putting in its entries one after the other. -/
theorem fillAtOnce_eq_puts (hk : k.isKey = true) {v : HostValue}
    {entries : List (HostValue × HostValue)} (hv : v.HasEntries entries) :
    s.fillAtOnce c id (.map k t) v =
      s.fillStepwise c id (.map k t) (entries.map fun entry => .put id entry.1 entry.2) := by
  have hkey : (WrappedType.map k t).keyType.isKey = true := hk
  rw [fillAtOnce_eq hkey, fillStepwise_eq hkey, runEach_insertions run_put_created,
    ← Content.fill_eq_ofHost, Content.fill, Content.entriesOf_of_hasEntries hv]
  rfl

/-- Filling a set at once ends as adding its items one after the other. -/
theorem fillAtOnce_eq_adds (he : e.isKey = true) {v : HostValue} {items : List HostValue}
    (hv : v.HasItems items) :
    s.fillAtOnce c id (.set e) v = s.fillStepwise c id (.set e) (items.map (.add id)) := by
  have hkey : (WrappedType.set e).keyType.isKey = true := he
  rw [fillAtOnce_eq hkey, fillStepwise_eq hkey, runEach_insertions run_add_created,
    ← Content.fill_eq_ofHost, Content.fill, Content.itemsOf_of_hasItems hv]
  rfl

/-- A dict makes the content of a map that it is converted to. -/
theorem datum_ofHost_dict (entries : List (HostValue × HostValue)) :
    (do return (← refuse (Content.ofHost (.map k t) (.dict entries))).datum) =
      refuse ((ElementType.map k t).toDatum (.dict entries)) := by
  show (do return (← refuse do
      return Content.map
        (Ordered.ofList Prod.fst (← entries.mapM (Content.storeEntry k t)))).datum) =
    refuse do return .map (Ordered.ofList Prod.fst (← entries.mapM (Content.storeEntry k t)))
  cases entries.mapM (Content.storeEntry k t) <;> rfl

/-- A host set makes the content of a set that it is converted to. -/
theorem datum_ofHost_set (items : List HostValue) :
    (do return (← refuse (Content.ofHost (.set e) (.set items))).datum) =
      refuse ((ElementType.set e).toDatum (.set items)) := by
  show (do return (← refuse do
      return Content.set (Ordered.ofList id (← items.mapM e.toDatum))).datum) =
    refuse do return .set (Ordered.ofList id (← items.mapM e.toDatum))
  cases items.mapM e.toDatum <;> rfl

/-- What the new container holds is what the collection gives. -/
theorem filled_eq (hk : type.keyType.isKey = true) (v : HostValue) :
    (do return ((← s.fillAtOnce c id type v).contentAt s.contents.length).datum) =
      (do return (← refuse (Content.ofHost type v)).datum) := by
  rw [fillAtOnce_eq hk]
  cases Content.ofHost type v with
  | error f => rfl
  | ok content => exact congrArg (Except.ok ∘ Content.datum) (contentAt_created content)

/-- A container is filled in three ways, with one outcome: from a collection at once, by
insertions into an empty container, and, if the collection is of the container's own
kind, by its conversion as a whole. Of several entries with one key the last stays. -/
theorem fillings_agree (c : Catalog) (s : Store) (id : String) :
    (∀ (k t : ElementType) (v : HostValue) (entries : List (HostValue × HostValue)),
      k.isKey = true → v.HasEntries entries →
      let filled := s.fillStepwise c id (.map k t)
        (entries.map fun entry => .put id entry.1 entry.2)
      s.fillAtOnce c id (.map k t) v = filled ∧
      (v = .dict entries →
        (do return ((← filled).contentAt s.contents.length).datum) =
          refuse ((ElementType.map k t).toDatum v)) ∧
      ∀ s', filled = .ok s' → ∃ stored,
        List.Forall₂ (fun entry d => k.toDatum entry.1 = .ok d.1 ∧ t.toDatum entry.2 = .ok d.2)
          entries stored ∧
        ∀ x, (s'.contentAt s.contents.length).get? x =
          (Ordered.find? Prod.fst x stored.reverse).map Prod.snd) ∧
    (∀ (e : ElementType) (v : HostValue) (items : List HostValue),
      e.isKey = true → v.HasItems items →
      let filled := s.fillStepwise c id (.set e) (items.map (.add id))
      s.fillAtOnce c id (.set e) v = filled ∧
      (v = .set items →
        (do return ((← filled).contentAt s.contents.length).datum) =
          refuse ((ElementType.set e).toDatum v))) := by
  constructor
  · intro k t v entries hk hv filled
    have hkey : (WrappedType.map k t).keyType.isKey = true := hk
    have hsame : s.fillAtOnce c id (.map k t) v = filled := fillAtOnce_eq_puts hk hv
    refine ⟨hsame, ?_, fun s' hs' => ?_⟩
    · rintro rfl
      rw [← hsame, filled_eq hkey, datum_ofHost_dict]
    · rw [← hsame, fillAtOnce_eq hkey] at hs'
      obtain ⟨content, hcontent, hs'⟩ := bind_eq_ok hs'
      cases hs'
      obtain ⟨stored, rfl, hstored⟩ := Content.exists_stored_of_ofHost hv (refuse_eq_ok hcontent)
      refine ⟨stored, hstored, fun x => ?_⟩
      rw [contentAt_created, Content.get?_ofList]
  · intro e v items he hv filled
    have hkey : (WrappedType.set e).keyType.isKey = true := he
    have hsame : s.fillAtOnce c id (.set e) v = filled := fillAtOnce_eq_adds he hv
    refine ⟨hsame, ?_⟩
    rintro rfl
    rw [← hsame, filled_eq hkey, datum_ofHost_set]

/-- A list of pairs in which one key comes twice, with the second value staying, and a tuple
whose first item is out of range while its last is of another kind: the first is the fault. -/
theorem fillings_agree_repeated :
    let k : ElementType := .primitive .int32
    let t : ElementType := .set (.primitive .str)
    let entries : List (HostValue × HostValue) :=
      [(.int 1, .set [.str "a"]), (.int 2, .set []), (.int 1, .set [.str "b", .str "a"])]
    let v : HostValue := .list
      [.tuple [.int 1, .set [.str "a"]], .list [.int 2, .set []],
        .tuple [.int 1, .set [.str "b", .str "a"]]]
    let puts : List Operation := entries.map fun entry => .put "m" entry.1 entry.2
    let items : List HostValue := [.int 2147483648, .int 5, .str "x"]
    v.HasEntries entries ∧
      empty.fillAtOnce .builtin "m" (.map k t) v = empty.fillStepwise .builtin "m" (.map k t) puts ∧
      (∃ s', empty.fillStepwise .builtin "m" (.map k t) puts = .ok s' ∧
        (s'.contentAt 0).get? (.integer .int32 ⟨1, by decide⟩) = some (.set [.str "a", .str "b"])) ∧
      empty.fillAtOnce .builtin "s" (.set k) (.tuple items) =
        .error (.fault (.outOfRange 2147483648 .int32)) := by
  intro k t entries v puts items
  have hv : v.HasEntries entries := .list (.cons (.tuple _ _) (.cons (.list _ _)
    (.cons (.tuple _ _) .nil)))
  obtain ⟨hmaps, -⟩ := fillings_agree .builtin empty "m"
  obtain ⟨-, hsets⟩ := fillings_agree .builtin empty "s"
  refine ⟨hv, (hmaps k t v entries rfl hv).1, ⟨_, rfl, rfl⟩, ?_⟩
  rw [(hsets k (.tuple items) items rfl (.tuple items)).1]
  rfl

end Store

end WrapGen
