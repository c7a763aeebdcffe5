import BuildGraph.Proofs.Walks

/-!
# Files that grow

Files extend others if everything that lies in the others lies in them too (`Files.Extends`).  What
lies nowhere yet may be added, so a walk that fails may succeed in an extension; but a walk that
succeeds, and all that is read at its end, stay as they are.

What is added in an extension is spoken of by a property of locations and entries (`Files.Adds`).
-/

namespace BuildGraph.Files

open BuildGraph.Path

/-- Whatever lies in files lies in others at the same location. -/
structure Extends (fs more : Files) : Prop where
  workdir_eq : more.workdir = fs.workdir
  lookup_eq {l : Location} {e : Entry} (h : fs.lookup l = some e) : more.lookup l = some e

namespace Extends

variable {fs more most : Files} {l : Location} {e : Entry} {p : String}

theorem refl (fs : Files) : fs.Extends fs := ⟨rfl, id⟩

theorem trans (h : fs.Extends more) (h' : more.Extends most) : fs.Extends most where
  workdir_eq := h'.workdir_eq.trans h.workdir_eq
  lookup_eq hl := h'.lookup_eq (h.lookup_eq hl)

/-- An entry is added where nothing lies. -/
theorem of_insert (h : fs.lookup l = none) (e : Entry) : fs.Extends (fs.insert l e) where
  workdir_eq := rfl
  lookup_eq := by
    intro m e' hm
    have hne : m ≠ l := by
      rintro rfl
      rw [h] at hm
      cases hm
    rw [lookup_insert_of_ne fs e hne, hm]

/-- What lies nowhere in an extension lies nowhere. -/
theorem lookup_eq_none (h : fs.Extends more) (hl : more.lookup l = none) : fs.lookup l = none := by
  cases hfs : fs.lookup l with
  | none => rfl
  | some e =>
      rw [h.lookup_eq hfs] at hl
      cases hl

theorem start_eq (h : fs.Extends more) (p : String) : more.start p = fs.start p := by
  rw [start, start, h.workdir_eq]

/-! ## Walks and what lies at their ends -/

theorem walks (h : fs.Extends more) {byPath : Bool} {links : Nat} {here : Location}
    {xs : List String} (hw : fs.Walks byPath links here xs l) :
    more.Walks byPath links here xs l := by
  induction hw with
  | done => exact .done
  | stay hdir hpiece _ ih => exact .stay (h.lookup_eq hdir) hpiece ih
  | up hdir _ ih => exact .up (h.lookup_eq hdir) ih
  | enter hdir hdot hdots hlook he hlink _ ih =>
      exact .enter (h.lookup_eq hdir) hdot hdots hlook (h.lookup_eq he) hlink ih
  | follow hdir hdot hdots hlook he _ ih =>
      exact .follow (h.lookup_eq hdir) hdot hdots hlook (h.lookup_eq he) ih

theorem walk_eq (h : fs.Extends more) {byPath : Bool} {links : Nat} {here : Location}
    {xs : List String} (hw : fs.walk byPath links here xs = .ok l) :
    more.walk byPath links here xs = .ok l :=
  walk_eq_ok_iff.2 (h.walks (walk_eq_ok_iff.1 hw))

theorem resolve_eq (h : fs.Extends more) (hp : fs.resolve p = .ok l) :
    more.resolve p = .ok l := by
  obtain ⟨hcheck, hwalk⟩ := resolve_eq_ok_iff.1 hp
  rw [← h.start_eq] at hwalk
  exact resolve_eq_ok_iff.2 ⟨hcheck, h.walk_eq hwalk⟩

theorem stat_eq (h : fs.Extends more) (hp : fs.stat p = .ok e) : more.stat p = .ok e := by
  obtain ⟨l, hl, he⟩ := stat_eq_ok_iff.1 hp
  exact stat_eq_ok_iff.2 ⟨l, h.resolve_eq hl, h.lookup_eq he⟩

theorem pathExists_eq (h : fs.Extends more) (hp : fs.pathExists p = true) :
    more.pathExists p = true := by
  obtain ⟨e, he⟩ := pathExists_iff.1 hp
  exact pathExists_iff.2 ⟨e, h.stat_eq he⟩

theorem locate_eq (h : fs.Extends more) (hp : fs.locate p = .ok l) : more.locate p = .ok l := by
  obtain ⟨⟨e, he⟩, hwalks⟩ := locate_eq_ok_iff.1 hp
  rw [← h.start_eq] at hwalks
  exact locate_eq_ok_iff.2 ⟨⟨e, h.stat_eq he⟩, h.walks hwalks⟩

theorem canonicalize_eq (h : fs.Extends more) {canonical : String}
    (hp : fs.canonicalize p = .ok canonical) : more.canonicalize p = .ok canonical := by
  obtain ⟨l, hl, rfl⟩ := exists_locate_of_canonicalize hp
  rw [canonicalize, h.locate_eq hl]
  rfl

/-- What is read of a path that names an entry is read of it in an extension. -/
theorem read_eq (h : fs.Extends more) (hp : fs.stat p = .ok e) : more.read p = fs.read p := by
  rw [read, read, h.stat_eq hp, hp]

theorem readText_eq (h : fs.Extends more) (hp : fs.stat p = .ok e) :
    more.readText p = fs.readText p := by
  rw [readText, readText, h.read_eq hp]

end Extends

/-! ## What is added -/

/-- What lies in files and not in others has a property. -/
def Adds (p : Location → Entry → Prop) (fs more : Files) : Prop :=
  ∀ l e, fs.lookup l = none → more.lookup l = some e → p l e

namespace Adds

variable {fs mid more : Files} {p q : Location → Entry → Prop} {l : Location} {e : Entry}

theorem refl (p : Location → Entry → Prop) (fs : Files) : fs.Adds p fs := by
  intro l e hnone hl
  rw [hnone] at hl
  cases hl

theorem mono (h : fs.Adds p more) (hpq : ∀ l e, p l e → q l e) : fs.Adds q more :=
  fun l e hnone hl => hpq l e (h l e hnone hl)

/-- What is added in two steps is what is added in each. -/
theorem trans (h : fs.Adds p mid) (h' : mid.Adds p more) (hgrows : mid.Extends more) :
    fs.Adds p more := by
  intro l e hnone hl
  cases hmid : mid.lookup l with
  | none => exact h' l e hmid hl
  | some e' =>
      rw [hgrows.lookup_eq hmid] at hl
      obtain rfl := Option.some.inj hl
      exact h l e' hnone hmid

/-- An entry that is put where nothing is is all that is added. -/
theorem insert (hp : p l e) : fs.Adds p (fs.insert l e) := by
  intro m e' hnone hm
  by_cases hml : m = l
  · have hl : l ≠ [] := by
      rintro rfl
      rw [hml, lookup_root] at hnone
      cases hnone
    rw [hml, lookup_insert_self fs e hl] at hm
    rw [hml, ← Option.some.inj hm]
    exact hp
  · rw [lookup_insert_of_ne fs e hml, hnone] at hm
    cases hm

end Adds

end BuildGraph.Files
