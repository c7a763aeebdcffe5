import BuildGraph.Composition
import BuildGraph.Proofs.Markers
import BuildGraph.Script.Evaluate
import Mathlib.Data.List.Forall2

/-!
# Concatenation in descriptions

However a chain of texts, numbers and markers is grouped, its value is composed to what the plain
sequence of its operands is composed to: the same text, with the same errors in the same order
(`Script.Chain.compose_chain`).

The values that arise are of four shapes, and each stands for a list of fragments
(`Script.StandsFor`).  Where one of two operands is a table, their concatenation stands for the
fragments of both (`Script.StandsFor.concat`).  Where neither is, two literal fragments become one,
which is composed to the same text (`Fragment.composeAll_literals`).
-/

namespace BuildGraph

open Script (Error Identity Value)

/-! ## Composing fragments -/

namespace Fragment

theorem composeAll_append (fs gs : List Fragment) :
    composeAll (fs ++ gs)
      = (do
          let left ← composeAll fs
          let right ← composeAll gs
          pure (left ++ right)) := by
  induction fs with
  | nil => simp only [List.nil_append, composeAll, pure_bind, String.empty_append, bind_pure]
  | cons f fs ih =>
      simp only [List.cons_append, composeAll, ih, bind_assoc, pure_bind, String.append_assoc]

theorem composeAll_literal (s : String) : composeAll [.literal s] = pure s := by
  simp [composeAll, compose]

/-- Adjacent literals are composed as one. -/
theorem composeAll_literals (s t : String) :
    composeAll [.literal s, .literal t] = composeAll [.literal (s ++ t)] := by
  simp [composeAll, compose]

/-- Lists of fragments are composed alike if their parts are. -/
theorem composeAll_append_congr {fs fs' gs gs' : List Fragment}
    (hf : composeAll fs = composeAll fs') (hg : composeAll gs = composeAll gs') :
    composeAll (fs ++ gs) = composeAll (fs' ++ gs') := by
  rw [composeAll_append, composeAll_append, hf, hg]

end Fragment

namespace Script

/-! ## What values stand for -/

/-- A text, a number or a marker stands for one fragment. -/
inductive Atom : Value → Fragment → Prop
  | text (s : String) : Atom (.ofString s) (.literal s)
  | integer (n : Int) : Atom (.integer n) (.literal (toString n))
  | marker (identity : Identity) (name : String) :
      Atom (.markerAs identity name) (.ofName name)

/-- A value stands for fragments: it is an atom, or was concatenated of atoms. -/
inductive StandsFor : Value → List Fragment → Prop
  | atom {v : Value} {f : Fragment} (h : Atom v f) : StandsFor v [f]
  | composed {identity : Identity} {items : List Value} {fs : List Fragment}
      (h : List.Forall₂ Atom items fs) :
      StandsFor (.table { identity, role := .composed } items []) fs

variable {a b v : Value} {f : Fragment} {fs gs : List Fragment}

theorem Atom.parts (h : Atom v f) : v.parts = .ok [v] := by
  cases h with
  | text s => rw [Value.ofString, Value.parts]; rfl
  | integer n => rw [Value.parts]; rfl
  | marker identity name =>
      have hfragment := Value.fragment?_markerAs identity name
      rw [Value.markerAs] at hfragment ⊢
      rw [Value.parts, hfragment]
      rfl

theorem Atom.fragmentsOf (h : Atom v f) (place : String) :
    Description.fragmentsOf place v = .ok [f] := by
  cases h with
  | text s => exact Description.fragmentsOf_ofString place s
  | integer n => rw [Description.fragmentsOf]; rfl
  | marker identity name => exact Description.fragmentsOf_markerAs place identity name

theorem partsOf_of_atoms {items : List Value} (h : List.Forall₂ Atom items fs) :
    Value.partsOf items = .ok items := by
  induction h with
  | nil => rw [Value.partsOf]; rfl
  | cons hv _ ih =>
      rw [Value.partsOf, hv.parts, ih]
      rfl

/-- The parts of a value are atoms for its fragments. -/
theorem StandsFor.exists_parts (h : StandsFor v fs) :
    ∃ items, v.parts = .ok items ∧ List.Forall₂ Atom items fs := by
  cases h with
  | atom h => exact ⟨[v], h.parts, .cons h .nil⟩
  | composed h =>
      refine ⟨_, ?_, h⟩
      rw [Value.parts]
      exact partsOf_of_atoms h

theorem fragmentsOfAll_of_each {place : String} {vs : List Value} {fss : List (List Fragment)}
    (h : List.Forall₂ (fun v fs => Description.fragmentsOf place v = .ok fs) vs fss) :
    Description.fragmentsOfAll place vs = .ok fss.flatten := by
  induction h with
  | nil => rw [Description.fragmentsOfAll]; rfl
  | cons hv _ ih =>
      rw [Description.fragmentsOfAll, hv, ih]
      rfl

/-- A value is read as the fragments that it stands for. -/
theorem StandsFor.fragmentsOf (h : StandsFor v fs) (place : String) :
    Description.fragmentsOf place v = .ok fs := by
  cases h with
  | atom h => exact h.fragmentsOf place
  | @composed identity items _ h =>
      rw [Description.fragmentsOf]
      change Description.fragmentsOfAll place _ = _
      have heach : List.Forall₂ (fun v gs => Description.fragmentsOf place v = .ok gs)
          items (fs.map fun f => [f]) := by
        rw [List.forall₂_map_right_iff]
        exact h.imp fun _ _ hv => hv.fragmentsOf place
      rw [fragmentsOfAll_of_each heach, ← List.flatMap_def, List.flatMap_singleton']

/-- The template of a value is composed to what its fragments are composed to. -/
theorem StandsFor.exists_template (h : StandsFor v fs) (place : String) :
    ∃ t, Description.template place v = .ok t ∧ t.compose = Fragment.composeAll fs := by
  have hfragments := congrArg (Except.map Template.composed) (h.fragmentsOf place)
  cases h with
  | atom h =>
      cases h with
      | text s =>
          exact ⟨_, Description.template_ofString place s, (Fragment.composeAll_literal s).symm⟩
      | integer n => exact ⟨_, rfl, (Fragment.composeAll_literal _).symm⟩
      | marker identity name => exact ⟨_, hfragments, rfl⟩
  | composed h => exact ⟨_, hfragments, rfl⟩

/-! ## Concatenation -/

/-- A text or a number stands for its text as one literal, every other value has no bytes. -/
theorem StandsFor.bytes? (h : StandsFor v fs) :
    (∃ s, v.bytes? = some s.toUTF8 ∧ fs = [.literal s])
      ∨ (v.bytes? = none ∧ v.composes = true) := by
  cases h with
  | atom h =>
      cases h with
      | text s => exact .inl ⟨s, rfl, rfl⟩
      | integer n => exact .inl ⟨_, rfl, rfl⟩
      | marker identity name => exact .inr ⟨rfl, by simp [Value.markerAs, Value.composes]⟩
  | composed h => exact .inr ⟨rfl, by simp [Value.composes]⟩

/-- A concatenation with a table has the parts of both sides. -/
theorem concat_of_composes (hbytes : a.bytes? = none ∨ b.bytes? = none)
    (hcomposes : (a.composes || b.composes) = true) {left right : List Value}
    (hleft : a.parts = .ok left) (hright : b.parts = .ok right) :
    a.concat b = .ok (.table { role := .composed } (left ++ right) []) := by
  rw [Value.concat]
  split
  · next ha hb => simp_all
  · rw [if_pos hcomposes, hleft, hright]
    rfl

/-- Values that stand for fragments have a concatenation; it stands for fragments that are
composed to what those of both sides are composed to. -/
theorem StandsFor.concat (ha : StandsFor a fs) (hb : StandsFor b gs) :
    ∃ v hs, a.concat b = .ok v ∧ StandsFor v hs
      ∧ Fragment.composeAll hs = Fragment.composeAll (fs ++ gs) := by
  have hcomposed (hbytes : a.bytes? = none ∨ b.bytes? = none)
      (hcomposes : (a.composes || b.composes) = true) :
      ∃ v, a.concat b = .ok v ∧ StandsFor v (fs ++ gs) := by
    obtain ⟨left, hleft, hfs⟩ := ha.exists_parts
    obtain ⟨right, hright, hgs⟩ := hb.exists_parts
    exact ⟨_, concat_of_composes hbytes hcomposes hleft hright,
      .composed (List.rel_append hfs hgs)⟩
  obtain ⟨s, hs, rfl⟩ | ⟨hnone, hcomposes⟩ := ha.bytes?
  · obtain ⟨t, ht, rfl⟩ | ⟨hnone, hcomposes⟩ := hb.bytes?
    · refine ⟨.ofString (s ++ t), [.literal (s ++ t)], ?_, .atom (.text _),
        (Fragment.composeAll_literals s t).symm⟩
      rw [Value.concat, hs, ht, Value.ofString, String.toUTF8_eq_toByteArray,
        String.toUTF8_eq_toByteArray, String.toUTF8_eq_toByteArray, String.toByteArray_append]
    · obtain ⟨v, hv, hstands⟩ := hcomposed (.inr hnone) (by simp [hcomposes])
      exact ⟨v, _, hv, hstands, rfl⟩
  · obtain ⟨v, hv, hstands⟩ := hcomposed (.inl hnone) (by simp [hcomposes])
    exact ⟨v, _, hv, hstands, rfl⟩

/-! ## Operands and chains -/

/-- A table with another identity; other values have none. -/
def Value.identifiedAs (identity : Identity) : Value → Value
  | .table tag items fields => .table { tag with identity } items fields
  | v => v

theorem StandsFor.identifiedAs (h : StandsFor v fs) (identity : Identity) :
    StandsFor (v.identifiedAs identity) fs := by
  cases h with
  | atom h =>
      cases h with
      | text s => exact .atom (.text s)
      | integer n => exact .atom (.integer n)
      | marker _ name => exact .atom (.marker identity name)
  | composed h => exact .composed h

/-- What may be concatenated: a text, a number, a marker, and what was concatenated of these.
Every table that is made has an identity of its own. -/
inductive IsOperand : Value → Prop
  | text (s : String) : IsOperand (.ofString s)
  | integer (n : Int) : IsOperand (.integer n)
  | marker (identity : Identity) (name : String) : IsOperand (.markerAs identity name)
  | built {a b v : Value} (identity : Identity) (ha : IsOperand a) (hb : IsOperand b)
      (hv : a.concat b = .ok v) : IsOperand (v.identifiedAs identity)

/-- Operands that are concatenated in some grouping. -/
inductive Chain where
  | operand (v : Value)
  | join (left right : Chain)

namespace Chain

/-- The operands from left to right. -/
def operands : Chain → List Value
  | operand v => [v]
  | join left right => left.operands ++ right.operands

/-- What a chain gives; every table that is made on the way has an identity of its own. -/
inductive Gives : Chain → Value → Prop
  | operand (v : Value) : Gives (.operand v) v
  | join {left right : Chain} {a b v : Value} (identity : Identity) (hl : Gives left a)
      (hr : Gives right b) (hv : a.concat b = .ok v) :
      Gives (.join left right) (v.identifiedAs identity)

/-- The expression of a chain. -/
def expr : Chain → Expr
  | operand v => .constant v
  | join left right => .concat left.expr right.expr

end Chain

/-- Every operand stands for fragments. -/
theorem IsOperand.exists_standsFor (h : IsOperand v) : ∃ fs, StandsFor v fs := by
  induction h with
  | text s => exact ⟨_, .atom (.text s)⟩
  | integer n => exact ⟨_, .atom (.integer n)⟩
  | marker identity name => exact ⟨_, .atom (.marker identity name)⟩
  | built identity _ _ hv iha ihb =>
      obtain ⟨fs, hfs⟩ := iha
      obtain ⟨gs, hgs⟩ := ihb
      obtain ⟨v, hs, hconcat, hstands, -⟩ := hfs.concat hgs
      obtain rfl : v = _ := Except.ok.inj (hconcat.symm.trans hv)
      exact ⟨hs, hstands.identifiedAs identity⟩

/-- Operands have a concatenation. -/
theorem IsOperand.exists_concat (ha : IsOperand a) (hb : IsOperand b) :
    ∃ v, a.concat b = .ok v := by
  obtain ⟨fs, hfs⟩ := ha.exists_standsFor
  obtain ⟨gs, hgs⟩ := hb.exists_standsFor
  obtain ⟨v, _, hv, -, -⟩ := hfs.concat hgs
  exact ⟨v, hv⟩

namespace Chain

/-- What a chain gives stands for fragments that are composed to what those of all operands are
composed to. -/
theorem Gives.exists_standsFor {c : Chain} (h : c.Gives v)
    (hoperands : ∀ v ∈ c.operands, IsOperand v) :
    ∃ fs fss, StandsFor v fs ∧ List.Forall₂ StandsFor c.operands fss
      ∧ Fragment.composeAll fs = Fragment.composeAll fss.flatten := by
  induction h with
  | operand v =>
      obtain ⟨fs, hfs⟩ := (hoperands v (List.mem_singleton.2 rfl)).exists_standsFor
      exact ⟨fs, [fs], hfs, .cons hfs .nil, by rw [List.flatten_singleton]⟩
  | join identity _ _ hv ihl ihr =>
      obtain ⟨fs, fss, hfs, hleft, hf⟩ := ihl fun v hv => hoperands v (List.mem_append_left _ hv)
      obtain ⟨gs, gss, hgs, hright, hg⟩ := ihr fun v hv => hoperands v (List.mem_append_right _ hv)
      obtain ⟨v, hs, hconcat, hstands, hcompose⟩ := hfs.concat hgs
      obtain rfl : v = _ := Except.ok.inj (hconcat.symm.trans hv)
      refine ⟨hs, fss ++ gss, hstands.identifiedAs identity, List.rel_append hleft hright,
        hcompose.trans ?_⟩
      rw [List.flatten_append]
      exact Fragment.composeAll_append_congr hf hg

/-- What a chain of operands gives may be concatenated further. -/
theorem Gives.isOperand {c : Chain} (h : c.Gives v) (hoperands : ∀ v ∈ c.operands, IsOperand v) :
    IsOperand v := by
  induction h with
  | operand v => exact hoperands v (List.mem_singleton.2 rfl)
  | join identity _ _ hv ihl ihr =>
      exact .built identity (ihl fun v hv => hoperands v (List.mem_append_left _ hv))
        (ihr fun v hv => hoperands v (List.mem_append_right _ hv)) hv

/-- A chain of operands gives something. -/
theorem exists_gives {c : Chain} (h : ∀ v ∈ c.operands, IsOperand v) : ∃ v, c.Gives v := by
  induction c with
  | operand v => exact ⟨v, .operand v⟩
  | join left right ihl ihr =>
      have hleft := fun v hv => h v (List.mem_append_left _ hv)
      have hright := fun v hv => h v (List.mem_append_right _ hv)
      obtain ⟨a, ha⟩ := ihl hleft
      obtain ⟨b, hb⟩ := ihr hright
      obtain ⟨v, hv⟩ := (ha.isOperand hleft).exists_concat (hb.isOperand hright)
      exact ⟨_, .join (.made 0) ha hb hv⟩

/-! ### Evaluation -/

theorem run_bind_of_ok {α β : Type} {c : Evaluation α} {a : α} {memory memory' : Memory}
    (h : c.run memory = .ok (a, memory')) (f : α → Evaluation β) :
    (c >>= f).run memory = (f a).run memory' := by
  rw [StateT.run_bind, h]
  rfl

theorem exists_run_fresh (v : Value) (memory : Memory) :
    ∃ identity memory', (fresh v).run memory = .ok (v.identifiedAs identity, memory')
      ∧ memory'.roles = memory.roles := by
  cases v with
  | table tag items fields =>
      by_cases hmade : tag.identity = .made 0
      · refine ⟨.made (memory.made + 1), { memory with made := memory.made + 1 }, ?_, rfl⟩
        rw [fresh, if_pos hmade]
        rfl
      · refine ⟨tag.identity, memory, ?_, rfl⟩
        rw [fresh, if_neg hmade]
        rfl
  | _ => exact ⟨.made 0, memory, rfl, rfl⟩

/-- The expression of a chain of operands has a value where no table has changed its role, and
this is what the chain gives. -/
theorem exists_eval_expr {c : Chain} (h : ∀ v ∈ c.operands, IsOperand v) (env : Environment)
    (scope : Scope) {memory : Memory} (hroles : memory.roles = []) :
    ∃ v memory', (c.expr.eval env scope).run memory = .ok (v, memory')
      ∧ memory'.roles = [] ∧ c.Gives v := by
  induction c generalizing memory with
  | operand v => exact ⟨v, memory, by rw [expr, Expr.eval]; rfl, hroles, .operand v⟩
  | join left right ihl ihr =>
      have hl := fun v hv => h v (List.mem_append_left _ hv)
      have hr := fun v hv => h v (List.mem_append_right _ hv)
      obtain ⟨a, memory₁, ha, hroles₁, hagives⟩ := ihl hl hroles
      obtain ⟨b, memory₂, hb, hroles₂, hbgives⟩ := ihr hr hroles₁
      obtain ⟨v, hv⟩ := (hagives.isOperand hl).exists_concat (hbgives.isOperand hr)
      obtain ⟨identity, memory', hfresh, hroles'⟩ := exists_run_fresh v memory₂
      refine ⟨_, memory', ?_, hroles'.trans hroles₂, .join identity hagives hbgives hv⟩
      have hpresent (v : Value) : (present v).run memory₂ = .ok (v, memory₂) := by
        change Except.ok (v.current memory₂.roles, memory₂) = _
        rw [hroles₂]
        rfl
      have hconcat : (liftM (a.concat b) : Evaluation Value).run memory₂ = .ok (v, memory₂) := by
        rw [hv]
        rfl
      rw [expr, Expr.eval, run_bind_of_ok ha, run_bind_of_ok hb, run_bind_of_ok (hpresent a),
        run_bind_of_ok (hpresent b), run_bind_of_ok hconcat]
      exact hfresh

/-- However operands are grouped, their concatenation has a template, and it is composed in every
session to what the template of the plain sequence of the operands is composed to: the same text,
with the same errors. -/
theorem compose_chain {c : Chain} (h : ∀ v ∈ c.operands, IsOperand v) :
    (∃ v, c.Gives v) ∧ ∀ v, c.Gives v → ∀ (place place' : String) (identity : Identity),
      ∃ t t', Description.template place v = .ok t
        ∧ Description.template place' (.table { identity } c.operands []) = .ok t'
        ∧ ∀ s : Session, t.compose.run s = t'.compose.run s := by
  obtain ⟨v, hv⟩ := exists_gives h
  refine ⟨⟨v, hv⟩, fun v hv place place' identity => ?_⟩
  obtain ⟨fs, fss, hstands, hfss, hcompose⟩ := hv.exists_standsFor h
  obtain ⟨t, ht, hrun⟩ := hstands.exists_template place
  have hplain : Description.template place' (.table { identity } c.operands [])
      = .ok (.composed fss.flatten) := by
    rw [Description.template, Description.fragmentsOf]
    change (Description.fragmentsOfAll place' _).map _ = _
    rw [fragmentsOfAll_of_each (hfss.imp fun _ _ hv => hv.fragmentsOf place')]
    rfl
  refine ⟨t, _, ht, hplain, fun s => ?_⟩
  rw [hrun, hcompose]
  rfl

/-- Two texts beside two tables, one of them concatenated before. -/
def mixed : Chain :=
  .join (.join (.operand (.ofString "a")) (.operand (.integer 1)))
    (.join (.operand (Value.keywordMarker .inputDir))
      (.operand (.table { identity := .made 2, role := .composed }
        [.markerAs (.made 1) "TYPO", .ofString "b"] [])))

theorem compose_mixed :
    (∀ v ∈ mixed.operands, IsOperand v) ∧ ∃ v t t', mixed.Gives v
      ∧ Description.template "" v = .ok t
      ∧ Description.template "" (.ofList mixed.operands) = .ok t'
      ∧ ∀ s : Session, t.compose.run s = t'.compose.run s := by
  have hoperands : ∀ v ∈ mixed.operands, IsOperand v := by
    have hbuilt := IsOperand.built (.made 2) (.marker (.made 1) "TYPO") (.text "b")
      (concat_of_composes (.inl rfl) rfl (Atom.marker _ _).parts (Atom.text _).parts)
    intro v hv
    rcases hv with _ | ⟨_, _ | ⟨_, _ | ⟨_, _ | ⟨_, hv⟩⟩⟩⟩
    · exact .text "a"
    · exact .integer 1
    · exact .marker _ _
    · exact hbuilt
    · cases hv
  obtain ⟨⟨v, hv⟩, hcompose⟩ := compose_chain hoperands
  obtain ⟨t, t', ht, ht', hrun⟩ := hcompose v hv "" "" (.made 0)
  exact ⟨hoperands, v, t, t', hv, ht, ht', hrun⟩

end Chain

end Script

end BuildGraph
