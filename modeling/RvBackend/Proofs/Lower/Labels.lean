import Mathlib.Algebra.Order.Group.Multiset
import RvBackend.Proofs.Asm.Listing

/-! # Labels that generation makes

Each construct puts each of the labels that it has made into its code once, and no other label. So
all labels of a program differ.

* `made_statement_labels` and its companions: the labels of a construct are the ones made for it.
* `labels_nodup`: no label of a program comes twice. -/

namespace RvBackend.Lower

open Asm

/-! ### Code without labels -/

variable {abi : Abi}

theorem labelsOf_loadAddress (r : Operand) (e : Entry) : labelsOf (loadAddress r e) = [] := by
  unfold loadAddress
  split <;> rfl

theorem labelsOf_operation {loc : Location} {op : Operator} {code : List Line}
    (h : operation loc op = .ok code) : labelsOf code = [] := by
  have hcomparison : labelsOf (comparison op) = [] := by
    unfold comparison
    split <;> rfl
  unfold operation at h
  split at h
  · cases h; rfl
  · cases h; rfl
  · cases h; rfl
  · cases h; rfl
  · cases h; rfl
  · cases h; rfl
  · cases h; rfl
  · split at h
    · cases h; exact hcomparison
    · cases h

theorem labelsOf_unaryOperation {loc : Location} {op : Operator} {code : List Line}
    (h : unaryOperation loc op = .ok code) : labelsOf code = [] := by
  unfold unaryOperation at h
  split at h
  · cases h; rfl
  · cases h; rfl
  · cases h; rfl
  · cases h

theorem labelsOf_transfer (callee : String) (count : ℕ) :
    labelsOf (transfer abi callee count) = [] := by
  unfold transfer
  rw [labelsOf_append, labelsOf_append]
  have hpops : ∀ rs : List String, labelsOf (rs.flatMap fun r => pop (.reg r)) = [] := by
    intro rs
    induction rs with
    | nil => rfl
    | cons r rs ih =>
      rw [List.flatMap_cons, labelsOf_append, ih]
      rfl
  rw [hpops]
  rfl

mutual

theorem labelsOf_expression {scopes : Scopes} : ∀ {e : Expr} {code : List Line},
    expression abi scopes e = .ok code → labelsOf code = []
  | .missing, _, h => by simp [expression] at h
  | .constant c, _, h => by
    obtain ⟨n, -, rfl⟩ := literal_eq_ok h
    rfl
  | .variable r, _, h => by
    obtain ⟨e, -, rfl⟩ := load_eq_ok h
    simp only [labelsOf_append, labelsOf_loadAddress]
    rfl
  | .binary loc op left right, _, h => by
    obtain ⟨lc, rc, oc, hl, hr, ho, rfl⟩ := expression_binary h
    simp only [labelsOf_append, labelsOf_expression hl, labelsOf_expression hr,
      labelsOf_operation ho]
    rfl
  | .unary loc op operand, _, h => by
    obtain ⟨c, oc, he, ho, rfl⟩ := expression_unary h
    simp only [labelsOf_append, labelsOf_expression he, labelsOf_unaryOperation ho]
    rfl
  | .call loc callee args, _, h => by
    obtain ⟨c, -, hargs, rfl⟩ := expression_call h
    rw [labelsOf_append, labelsOf_arguments hargs, labelsOf_transfer]
    rfl

theorem labelsOf_arguments {scopes : Scopes} {callee : String} : ∀ {es : List Expr} {i : ℕ}
    {code : List Line}, arguments abi scopes callee i es = .ok code → labelsOf code = []
  | [], _, _, h => by
    rw [arguments] at h
    cases h
    rfl
  | e :: es, _, _, h => by
    obtain ⟨c, rest, he, hes, rfl⟩ := arguments_cons h
    rw [labelsOf_append, labelsOf_append, labelsOf_expression he, labelsOf_arguments hes]
    rfl

end

theorem labelsOf_installEntries {loc : Location} : ∀ {es es' : List Entry} {params : ℕ}
    {code : List Line} {p q : Progress},
    Made (installEntries abi loc params es) p (es', code) q → labelsOf code = [] ∧
      q.labels = p.labels
  | [], _, _, _, _, _, h => by
    obtain ⟨-, rfl, rfl⟩ := made_installEntries_nil h
    exact ⟨rfl, rfl⟩
  | e :: es, _, _, _, _, _, h => by
    obtain ⟨-, fill, rest, es'', hfill, hrest, -, rfl⟩ := made_installEntries_cons h
    obtain ⟨hlabels, hcount⟩ := labelsOf_installEntries hrest
    refine ⟨?_, hcount⟩
    rw [labelsOf_append, hlabels]
    rcases fillSlot_eq_ok hfill with ⟨-, _, _, -, -, rfl⟩ | ⟨-, _, -, rfl⟩ | ⟨-, -, rfl⟩ <;> rfl

theorem labelsOf_install {ctx : Context} {loc : Location} {t t' : Option Table} {code : List Line}
    {p q : Progress} (h : Made (install ctx loc t) p (t', code) q) :
    labelsOf code = [] ∧ q.labels = p.labels := by
  cases t with
  | none =>
    obtain ⟨-, rfl, rfl⟩ := made_install_none h
    exact ⟨rfl, rfl⟩
  | some t =>
    obtain ⟨es, q', log, -, hes, rfl⟩ := made_install_some h
    obtain ⟨hlabels, hcount⟩ := labelsOf_installEntries hes
    exact ⟨hlabels, hcount⟩

/-! ### Statements -/

/-- A label made when `n` labels have been made before it. -/
def freshLabel (n : ℕ) : String := ".L" ++ Text.decimal ((n : ℤ) + 1)

/-- The labels made between two counts. -/
def freshLabels (m n : ℕ) : List String := (List.range' m (n - m)).map freshLabel

/-- The labels of code are those made between two counts, each of them once. -/
structure MakesLabels (code : List Line) (m n : ℕ) : Prop where
  le : m ≤ n
  perm : (labelsOf code).Perm (freshLabels m n)

theorem freshLabels_append {m n k : ℕ} (h : m ≤ n) (h' : n ≤ k) :
    freshLabels m n ++ freshLabels n k = freshLabels m k := by
  have hstart : n = m + 1 * (n - m) := by omega
  have hlength : k - m = (n - m) + (k - n) := by omega
  unfold freshLabels
  rw [← List.map_append, hlength, ← List.range'_append, ← hstart]

theorem MakesLabels.none {code : List Line} (h : labelsOf code = []) (n : ℕ) :
    MakesLabels code n n := by
  refine ⟨le_refl n, ?_⟩
  rw [h, freshLabels, Nat.sub_self]
  exact List.Perm.refl _

theorem MakesLabels.append {code code' : List Line} {m n k : ℕ} (h : MakesLabels code m n)
    (h' : MakesLabels code' n k) : MakesLabels (code ++ code') m k := by
  refine ⟨h.le.trans h'.le, ?_⟩
  rw [labelsOf_append, ← freshLabels_append h.le h'.le]
  exact h.perm.append h'.perm

/-- Code with two labels of its own, made before those of its parts. -/
theorem MakesLabels.of_pair {code inner : List Line} {m n : ℕ} (h : MakesLabels inner (m + 2) n)
    (hcode : (labelsOf code).Perm ([freshLabel m, freshLabel (m + 1)] ++ labelsOf inner)) :
    MakesLabels code m n := by
  have hle := h.le
  refine ⟨by omega, ?_⟩
  rw [← freshLabels_append (show m ≤ m + 2 by omega) h.le]
  refine hcode.trans (List.Perm.append ?_ h.perm)
  have htwo : m + 2 - m = 2 := by omega
  rw [freshLabels, htwo]
  exact List.Perm.refl _

mutual

theorem made_statement_labels {ctx : Context} : ∀ {s : Stmt} {scopes : Scopes} {code : List Line}
    {p q : Progress}, Made (statement ctx scopes s) p code q → MakesLabels code p.labels q.labels
  | .block b, _, _, _, _, h => made_block_labels h
  | .print _ _, _, _, p, _, h => by
    obtain ⟨c, hc, rfl, rfl⟩ := made_print h
    refine .none ?_ _
    rw [labelsOf_append, labelsOf_append, labelsOf_append, labelsOf_expression hc]
    rfl
  | .read _ _, _, _, p, _, h => by
    obtain ⟨e, -, rfl, rfl⟩ := made_read h
    refine .none ?_ _
    simp only [labelsOf_append, labelsOf_loadAddress]
    rfl
  | .assign _ _ _, _, _, p, _, h => by
    obtain ⟨e, c, -, hc, rfl, rfl⟩ := made_assign h
    refine .none ?_ _
    simp only [labelsOf_append, labelsOf_loadAddress, labelsOf_expression hc]
    rfl
  | .branch _ _ yes no, _, _, p, _, h => by
    obtain ⟨test, yesCode, noCode, p', p'', htest, rfl, hyes, hno, rfl⟩ := made_branch h
    refine ((made_optionalBlock_labels hyes).append (made_optionalBlock_labels hno)).of_pair ?_
    have hlabels : ∀ a b : String,
        labelsOf (test ++ pop t0 ++ [.op "beqz" [t0, .label a]] ++ yesCode ++
          [.op "j" [.label b], .label a] ++ noCode ++ [.label b]) =
          labelsOf yesCode ++ (a :: (labelsOf noCode ++ [b])) := by
      intro a b
      simp only [labelsOf_append, labelsOf_expression htest, List.append_assoc]
      rfl
    rw [hlabels, labelsOf_append]
    -- one label stands between the branches and one behind them
    refine List.perm_middle.trans ?_
    refine List.Perm.cons _ ?_
    rw [← List.append_assoc]
    exact List.perm_append_singleton _ _
  | .loop _ _ body, _, _, p, _, h => by
    obtain ⟨test, bodyCode, p', htest, rfl, hbody, rfl⟩ := made_loop h
    refine (made_optionalBlock_labels hbody).of_pair ?_
    have hlabels : ∀ a b : String,
        labelsOf ([.label a] ++ (test ++ pop t0 ++ [.op "beqz" [t0, .label b]]) ++ bodyCode ++
          [.op "j" [.label a], .label b]) = a :: (labelsOf bodyCode ++ [b]) := by
      intro a b
      simp only [labelsOf_append, labelsOf_expression htest, List.append_assoc]
      rfl
    rw [hlabels]
    exact List.Perm.cons _ (List.perm_append_singleton _ _)
  | .count _ scope _ _ _ body, _, _, p, _, h => by
    obtain ⟨lo, hi, scope', fill, e, bodyCode, p', p'', -, hscope, -, rfl, hbody, rfl⟩ :=
      made_count h
    obtain ⟨hfill, hcount⟩ := labelsOf_install hscope
    rw [← hcount]
    refine (made_optionalBlock_labels hbody).of_pair ?_
    have hlabels : ∀ (v a b : String), labelsOf (fill ++ countCode e v lo hi a b bodyCode) =
        a :: (labelsOf bodyCode ++ [b]) := by
      intro v a b
      simp only [countCode, labelsOf_append, labelsOf_loadAddress, hfill, List.append_assoc]
      rfl
    rw [hlabels]
    exact List.Perm.cons _ (List.perm_append_singleton _ _)
  | .ret _ _, _, _, p, _, h => by
    obtain ⟨c, hc, rfl, rfl⟩ := made_ret h
    refine .none ?_ _
    rw [labelsOf_append, labelsOf_append, labelsOf_append, labelsOf_expression hc]
    rfl
  | .call _ _ _, _, _, p, _, h => by
    obtain ⟨c, hc, rfl, rfl⟩ := made_call h
    refine .none ?_ _
    rw [labelsOf_append, labelsOf_expression hc]
    rfl

theorem made_block_labels {ctx : Context} : ∀ {b : Block} {scopes : Scopes} {code : List Line}
    {p q : Progress}, Made (block ctx scopes b) p code q → MakesLabels code p.labels q.labels
  | .mk _ _ _ _, _, _, _, _, h => by
    obtain ⟨scope', fill, bodyCode, p', hscope, hbody, rfl⟩ := made_block h
    obtain ⟨hfill, hcount⟩ := labelsOf_install hscope
    rw [← hcount]
    exact (MakesLabels.none hfill _).append (made_statements_labels hbody)

theorem made_optionalBlock_labels {ctx : Context} : ∀ {b : Option Block} {scopes : Scopes}
    {code : List Line} {p q : Progress}, Made (optionalBlock ctx scopes b) p code q →
    MakesLabels code p.labels q.labels
  | none, _, _, _, _, h => by
    obtain ⟨rfl, rfl⟩ := made_pure_iff.mp h
    exact .none rfl _
  | some b, _, _, _, _, h => made_block_labels h

theorem made_statements_labels {ctx : Context} : ∀ {ss : List Stmt} {scopes : Scopes}
    {code : List Line} {p q : Progress}, Made (statements ctx scopes ss) p code q →
    MakesLabels code p.labels q.labels
  | [], _, _, _, _, h => by
    obtain ⟨rfl, rfl⟩ := made_pure_iff.mp h
    exact .none rfl _
  | s :: ss, _, _, _, _, h => by
    obtain ⟨first, rest, p', hs, hss, rfl⟩ := made_statements_cons h
    exact (made_statement_labels hs).append (made_statements_labels hss)

end

/-! ### Programs -/

/-- The label behind the body of a function. -/
def exitLabel (name : String) : String := ".L" ++ name ++ "_exit"

/-- The labels of a function: its name, those of its body, and the one behind the body. -/
theorem LoweredFunction.labels {globals : Scopes} {f : RvBackend.Function} {g : Asm.Function}
    {p q : Progress} (h : LoweredFunction abi globals f p g q) :
    ∃ inner, labelsOf g.codeLines = f.name :: (labelsOf inner ++ [exitLabel f.name]) ∧
      MakesLabels inner p.labels q.labels := by
  obtain ⟨scope, fill, body, size, log, log', p', p'', hscope, hbody, -, rfl, hname, hlines⟩ := h
  obtain ⟨hfill, hcount⟩ := labelsOf_install hscope
  refine ⟨fill ++ body, ?_, ?_⟩
  · rw [Asm.Function.codeLines, hlines, hname, frameCode]
    show f.name :: labelsOf (_ ++ (fill ++ body) ++ _) = _
    rw [labelsOf_append, labelsOf_append]
    rfl
  · have hmade : p'.labels = p.labels := hcount
    have hlabels := made_optionalBlock_labels hbody
    rw [← hmade]
    exact (MakesLabels.none hfill _).append hlabels

theorem LoweredAll.labels {globals : Scopes} {fs : List RvBackend.Function} {gs : List Asm.Function}
    {p q : Progress} (h : LoweredAll abi globals fs p gs q) :
    p.labels ≤ q.labels ∧ (labelsOf (gs.flatMap Asm.Function.codeLines)).Perm
      (fs.map (·.name) ++ (fs.map fun f => exitLabel f.name) ++ freshLabels p.labels q.labels) := by
  induction h with
  | @nil p log =>
    refine ⟨le_refl _, ?_⟩
    have hnone : freshLabels p.labels p.labels = [] := by rw [freshLabels, Nat.sub_self]; rfl
    show List.Perm [] ([] ++ [] ++ freshLabels p.labels p.labels)
    rw [hnone]
    exact List.Perm.refl _
  | @cons f fs g gs p q r head tail ih =>
    obtain ⟨inner, hlabels, hmakes⟩ := head.labels
    obtain ⟨hle, hperm⟩ := ih
    refine ⟨hmakes.le.trans hle, ?_⟩
    rw [List.flatMap_cons, labelsOf_append, hlabels, ← freshLabels_append hmakes.le hle,
      List.map_cons, List.map_cons]
    have hinner := hmakes.perm
    rw [← Multiset.coe_eq_coe] at hperm hinner ⊢
    simp only [← Multiset.coe_add, ← Multiset.cons_coe, ← Multiset.singleton_add,
      Multiset.coe_nil] at hperm ⊢
    rw [hperm, hinner]
    abel

theorem toList_freshLabel (n : ℕ) :
    (freshLabel n).toList = '.' :: 'L' :: Text.decimalChars ((n : ℤ) + 1) := by
  simp [freshLabel, Text.decimal]

theorem toList_exitLabel (name : String) :
    (exitLabel name).toList = '.' :: 'L' :: (name.toList ++ ['_', 'e', 'x', 'i', 't']) := by
  simp [exitLabel]

theorem freshLabel_injective : Function.Injective freshLabel := by
  intro m n h
  have hlist := congrArg String.toList h
  rw [toList_freshLabel, toList_freshLabel, List.cons.injEq, List.cons.injEq] at hlist
  have hint := Text.decimalChars_injective hlist.2.2
  omega

theorem exitLabel_injective : Function.Injective exitLabel := by
  intro f g h
  have hlist := congrArg String.toList h
  rw [toList_exitLabel, toList_exitLabel, List.cons.injEq, List.cons.injEq] at hlist
  exact String.toList_inj.mp (List.append_cancel_right hlist.2.2)

theorem exitLabel_ne_freshLabel (name : String) (n : ℕ) : exitLabel name ≠ freshLabel n := by
  intro h
  have hlist := congrArg String.toList h
  rw [toList_exitLabel, toList_freshLabel, List.cons.injEq, List.cons.injEq] at hlist
  have hmem : '_' ∈ Text.decimalChars ((n : ℤ) + 1) := by
    rw [← hlist.2.2]
    simp
  exact absurd (Text.mem_decimalChars hmem) (by decide)

theorem head_of_made {fs : List RvBackend.Function} {m n : ℕ} {label : String}
    (h : label ∈ (fs.map fun f => exitLabel f.name) ++ freshLabels m n) :
    label.toList.head? = some '.' := by
  rcases List.mem_append.mp h with hmem | hmem
  · obtain ⟨f, -, rfl⟩ := List.mem_map.mp hmem
    rw [toList_exitLabel]
    rfl
  · obtain ⟨k, -, rfl⟩ := List.mem_map.mp hmem
    rw [toList_freshLabel]
    rfl

/-- A label that does not begin with a point is the name of a function. -/
theorem LoweredAll.name_of_label {globals : Scopes} {fs : List RvBackend.Function}
    {gs : List Asm.Function} {p q : Progress} (h : LoweredAll abi globals fs p gs q)
    {label : String} (hmem : label ∈ labelsOf (gs.flatMap Asm.Function.codeLines))
    (hdot : label.toList.head? ≠ some '.') :
    ∃ f ∈ fs, f.name = label := by
  rw [h.labels.2.mem_iff, List.append_assoc] at hmem
  rcases List.mem_append.mp hmem with hname | hmade
  · exact List.mem_map.mp hname
  · exact absurd (head_of_made hmade) hdot

/-- **No label of a program comes twice**, if the names of its functions differ and none begins with
a point. -/
theorem LoweredAll.labels_nodup {globals : Scopes} {fs : List RvBackend.Function}
    {gs : List Asm.Function} {p q : Progress} (h : LoweredAll abi globals fs p gs q)
    {data : List String} (hnames : (data ++ fs.map (·.name)).Nodup)
    (hdot : ∀ name ∈ data ++ fs.map (·.name), name.toList.head? ≠ some '.') :
    (data ++ labelsOf (gs.flatMap Asm.Function.codeLines)).Nodup := by
  have hexit : (fs.map fun f => exitLabel f.name).Nodup := by
    have hmap := (hnames.of_append_right).map exitLabel_injective
    rwa [List.map_map] at hmap
  have hfresh : (freshLabels p.labels q.labels).Nodup :=
    (List.nodup_range').map freshLabel_injective
  refine (List.Perm.nodup_iff ((List.Perm.refl data).append h.labels.2)).mpr ?_
  rw [List.append_assoc, ← List.append_assoc data]
  refine List.Nodup.append hnames (List.Nodup.append hexit hfresh ?_) ?_
  · intro label hmem hmem'
    obtain ⟨f, -, rfl⟩ := List.mem_map.mp hmem
    obtain ⟨n, -, hn⟩ := List.mem_map.mp hmem'
    exact exitLabel_ne_freshLabel _ _ hn.symm
  · intro label hmem hmem'
    exact hdot label hmem (head_of_made hmem')

end RvBackend.Lower
