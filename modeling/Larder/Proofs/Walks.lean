import Larder.Disk.Tree

/-! Where a path leads. Its parts are walked one by one, each from a directory, so the way to a
file is a name looked up where the parts before it lead, and the path of its parent leads to the
same place: what it lacks are slashes and dots that stay where one is. -/

namespace Larder

namespace Path

theorem piecesFrom_append_slash (piece a b : Bytes) :
    piecesFrom piece (a ++ 47 :: b) = piecesFrom piece a ++ piecesFrom [] b := by
  induction a generalizing piece with
  | nil =>
    by_cases h : piece = []
    · simp [piecesFrom, h]
    · simp [piecesFrom, h]
  | cons c a ih =>
    rw [List.cons_append, piecesFrom, piecesFrom]
    split
    · exact ih _
    · split
      · exact ih _
      · rw [ih, List.cons_append]

theorem piecesFrom_of_not_mem (piece : Bytes) {bs : Bytes} (h : (47 : UInt8) ∉ bs) :
    piecesFrom piece bs = if piece.reverse ++ bs = [] then [] else [piece.reverse ++ bs] := by
  induction bs generalizing piece with
  | nil => simp [piecesFrom]
  | cons c bs ih =>
    rw [List.mem_cons, not_or] at h
    rw [piecesFrom, if_pos (Ne.symm h.1), ih _ h.2, List.reverse_cons, List.append_assoc]
    rfl

theorem parts_append_slash (a b : Bytes) :
    parts ⟨a ++ 47 :: b⟩ = parts ⟨a⟩ ++ parts ⟨b⟩ := by
  rw [parts, piecesFrom_append_slash, List.map_append]
  rfl

theorem parts_of_piece {name : Bytes} (hne : name ≠ []) (h : (47 : UInt8) ∉ name) :
    parts ⟨name⟩ = [Part.of name] := by
  rw [parts, piecesFrom_of_not_mem [] h, List.reverse_nil, List.nil_append, if_neg hne]
  rfl

theorem dropIdle_isSuffix (bs : Bytes) : dropIdle bs <:+ bs := by
  induction bs using dropIdle.induct with
  | case1 rest ih =>
    rw [dropIdle]
    exact ih.trans (List.suffix_cons _ _)
  | case2 rest ih =>
    rw [dropIdle]
    exact ih.trans ((List.suffix_cons _ _).trans (List.suffix_cons _ _))
  | case3 bs h₁ h₂ => exact ⟨[], dropIdle.eq_3 bs h₁ h₂⟩

/-- What is trimmed off a path says to stay where one is. -/
theorem parts_eq_parts_trimmed (p : Path) :
    ∃ k, p.parts = p.trimmed.parts ++ List.replicate k .here := by
  have h : ∀ bs : Bytes, ∃ k,
      parts ⟨bs.reverse⟩ = parts ⟨(dropIdle bs).reverse⟩ ++ List.replicate k .here := by
    intro bs
    induction bs using dropIdle.induct with
    | case1 rest ih =>
      obtain ⟨k, hk⟩ := ih
      refine ⟨k, ?_⟩
      rw [dropIdle, List.reverse_cons, parts_append_slash, hk]
      exact List.append_nil _
    | case2 rest ih =>
      obtain ⟨k, hk⟩ := ih
      refine ⟨k + 1, ?_⟩
      rw [dropIdle, List.reverse_cons, List.reverse_cons, List.append_assoc, List.singleton_append,
        parts_append_slash, hk, List.replicate_succ', ← List.append_assoc]
      rfl
    | case3 bs h₁ h₂ =>
      refine ⟨0, ?_⟩
      rw [dropIdle.eq_3 bs h₁ h₂, List.replicate_zero, List.append_nil]
  have := h p.bytes.reverse
  rwa [List.reverse_reverse] at this

theorem obstacle?_trimmed {p : Path} {front : Bytes} (hfront : front <+: p.bytes)
    (h : p.obstacle? = none) : (trimmed ⟨front⟩).obstacle? = none := by
  have hpre : (trimmed ⟨front⟩).bytes <+: p.bytes := by
    refine List.IsPrefix.trans ?_ hfront
    have := List.reverse_prefix.mpr (dropIdle_isSuffix front.reverse)
    rwa [List.reverse_reverse] at this
  have hlen := hpre.length_le
  unfold obstacle? at h ⊢
  split at h
  · cases h
  · rename_i hzero
    split at h
    · cases h
    · rename_i hlimit
      rw [if_neg, if_neg]
      · omega
      · intro hc
        rw [List.contains_iff_mem] at hzero hc
        exact hzero (hpre.subset hc)

/-- A path that does not end in a slash ends in a piece. -/
theorem exists_last_piece {bs : Bytes} (hne : bs ≠ []) (hslash : bs.getLast? ≠ some 47) :
    ∃ name, name ≠ [] ∧ (47 : UInt8) ∉ name ∧ (bs = name ∨ ∃ front, bs = front ++ 47 :: name) := by
  induction bs with
  | nil => exact absurd rfl hne
  | cons b rest ih =>
    by_cases hrest : rest = []
    · subst hrest
      have hb : (47 : UInt8) ≠ b := fun e => hslash (by rw [e]; rfl)
      exact ⟨[b], hne, by simpa using hb, .inl rfl⟩
    · have hlast : rest.getLast? ≠ some 47 := by
        rwa [List.getLast?_cons_of_ne_nil hrest] at hslash
      obtain ⟨name, hname, hmem, heq | ⟨front, heq⟩⟩ := ih hrest hlast
      · by_cases hb : b = 47
        · exact ⟨name, hname, hmem, .inr ⟨[], by rw [heq, hb]; rfl⟩⟩
        · refine ⟨b :: name, List.cons_ne_nil _ _, ?_, .inl (by rw [heq])⟩
          rw [List.mem_cons, not_or]
          exact ⟨Ne.symm hb, hmem⟩
      · exact ⟨name, hname, hmem, .inr ⟨b :: front, by rw [heq]; rfl⟩⟩

theorem dropIdle_of_name {name rest : Bytes} (hne : name ≠ []) (h : (47 : UInt8) ∉ name)
    (hdot : name ≠ [46]) : dropIdle (name ++ rest) = name ++ rest := by
  rw [dropIdle.eq_3]
  · rintro tail heq
    cases name with
    | nil => exact hne rfl
    | cons b name =>
      cases heq
      exact h List.mem_cons_self
  · rintro tail heq
    match name with
    | [] => exact hne rfl
    | [b] =>
      cases heq
      exact hdot rfl
    | b :: c :: name =>
      cases heq
      exact h (List.mem_cons_of_mem _ List.mem_cons_self)

/-- The parent is what stands in front of the last name, trimmed. -/
theorem parent_append_name {front name : Bytes} (hne : name ≠ []) (h : (47 : UInt8) ∉ name)
    (hdot : name ≠ [46]) :
    parent ⟨front ++ name⟩ = trimmed ⟨(front.reverse.dropWhile (· ≠ 47)).reverse⟩ := by
  have hrev : name.reverse ≠ [] := fun e => hne (List.reverse_eq_nil_iff.mp e)
  have hmem : (47 : UInt8) ∉ name.reverse := fun e => h (List.mem_reverse.mp e)
  have hdot' : name.reverse ≠ [46] := fun e => hdot (by rw [← List.reverse_reverse name, e]; rfl)
  have htrim : trimmed ⟨front ++ name⟩ = ⟨front ++ name⟩ := by
    rw [trimmed, List.reverse_append, dropIdle_of_name hrev hmem hdot', ← List.reverse_append,
      List.reverse_reverse]
  have hdrop : (name.reverse ++ front.reverse).dropWhile (· ≠ 47) =
      front.reverse.dropWhile (· ≠ 47) := by
    refine List.dropWhile_append_of_pos fun b hb => ?_
    rw [decide_eq_true_eq]
    rintro rfl
    exact hmem hb
  rw [parent, htrim, List.reverse_append, hdrop]

theorem parent_of_piece {name : Bytes} (hne : name ≠ []) (h : (47 : UInt8) ∉ name)
    (hdot : name ≠ [46]) : parent ⟨name⟩ = ⟨[]⟩ := @parent_append_name [] name hne h hdot

theorem parent_append {front name : Bytes} (hne : name ≠ []) (h : (47 : UInt8) ∉ name)
    (hdot : name ≠ [46]) : parent ⟨front ++ 47 :: name⟩ = trimmed ⟨front⟩ := by
  have hparent : parent ⟨front ++ [47] ++ name⟩ = _ := parent_append_name hne h hdot
  have hstop : (47 :: front.reverse).dropWhile (· ≠ 47) = 47 :: front.reverse := rfl
  rw [List.append_assoc, List.singleton_append, List.reverse_append, List.reverse_singleton,
    List.singleton_append, hstop, trimmed, List.reverse_reverse, dropIdle] at hparent
  exact hparent

end Path

namespace Node

theorem at?_append_name (node : Node) (l : Location) (n : Bytes) :
    node.at? (l ++ [n]) = (node.at? l).bind (·.child? n) := by
  induction l generalizing node with
  | nil => cases h : node.child? n <;> simp [at?, h]
  | cons m l ih => cases h : node.child? m <;> simp [at?, h, ih]

theorem isDirectory_of_child? {node inner : Node} {n : Bytes} (h : node.child? n = some inner) :
    node.isDirectory = true := by
  cases node with
  | file bytes => cases h
  | directory entries => rfl

end Node

namespace Tree

variable {t : Tree}

/-- Each node of a trail is what its name leads to. -/
inductive Trail.Leads (t : Tree) : Trail → Prop
  | root : Leads t []
  | enter {trail : Trail} {n : Bytes} {node : Node} (h : Leads t trail)
      (hchild : (t.nodeAt trail).child? n = some node) : Leads t ((n, node) :: trail)

theorem Trail.Leads.tail {trail : Trail} (h : Leads t trail) : Leads t trail.tail := by
  cases h with
  | root => exact .root
  | enter h hchild => exact h

theorem Trail.Leads.node?_location {trail : Trail} (h : Leads t trail) :
    t.node? trail.location = some (t.nodeAt trail) := by
  induction h with
  | root => rfl
  | @enter trail n node h hchild ih =>
    have hloc : Trail.location ((n, node) :: trail) = trail.location ++ [n] := List.reverse_cons
    rw [node?] at ih ⊢
    rw [hloc, Node.at?_append_name, ih, Option.bind_some, hchild]
    rfl

theorem enter_eq_ok {trail trail' : Trail} {n : Bytes} (h : t.enter trail n = .ok trail') :
    ∃ node, (t.nodeAt trail).child? n = some node ∧ trail' = (n, node) :: trail := by
  unfold enter at h
  split at h
  · cases h
  · split at h
    · cases h
    · rename_i node hchild
      exact ⟨node, hchild, (Except.ok.inj h).symm⟩

/-- One part of a walk. -/
def step (t : Tree) (trail : Trail) (part : Path.Part) : Except OsError Trail :=
  if !(t.nodeAt trail).isDirectory then .error .notDirectory
  else
    match part with
    | .here => .ok trail
    | .up => .ok trail.tail
    | .name n => t.enter trail n

theorem walkFrom_cons_eq_ok {trail trail' : Trail} {part : Path.Part} {rest : List Path.Part} :
    t.walkFrom trail (part :: rest) = .ok trail' ↔
      ∃ mid, t.step trail part = .ok mid ∧ t.walkFrom mid rest = .ok trail' := by
  rw [walkFrom.eq_def, step.eq_def]
  by_cases hdir : (t.nodeAt trail).isDirectory = true
  · cases part with
    | here => simp [hdir]
    | up => simp [hdir]
    | name n => cases henter : t.enter trail n <;> simp [hdir, henter]
  · simp [hdir]

/-- A step is made from a directory; if it is a name, it enters what bears the name. -/
theorem step_eq_ok {trail trail' : Trail} {part : Path.Part}
    (h : t.step trail part = .ok trail') :
    (t.nodeAt trail).isDirectory = true ∧
      match part with
      | .here => trail' = trail
      | .up => trail' = trail.tail
      | .name n => t.enter trail n = .ok trail' := by
  unfold step at h
  split at h
  · cases h
  · rename_i hdir
    refine ⟨by simpa using hdir, ?_⟩
    cases part with
    | here => exact (Except.ok.inj h).symm
    | up => exact (Except.ok.inj h).symm
    | name n => exact h

theorem Trail.Leads.step {trail trail' : Trail} {part : Path.Part} (h : Leads t trail)
    (hstep : t.step trail part = .ok trail') : Leads t trail' := by
  have hpart := (step_eq_ok hstep).2
  cases part with
  | here => rwa [hpart]
  | up =>
    rw [hpart]
    exact h.tail
  | name n =>
    obtain ⟨node, hchild, rfl⟩ := enter_eq_ok hpart
    exact h.enter hchild

theorem Trail.Leads.walkFrom {trail trail' : Trail} {parts : List Path.Part} (h : Leads t trail)
    (hwalk : t.walkFrom trail parts = .ok trail') : Leads t trail' := by
  induction parts generalizing trail with
  | nil =>
    cases hwalk
    exact h
  | cons part parts ih =>
    obtain ⟨mid, hstep, hrest⟩ := walkFrom_cons_eq_ok.mp hwalk
    exact ih (h.step hstep) hrest

theorem walkFrom_append_eq_ok {trail trail' : Trail} {as bs : List Path.Part} :
    t.walkFrom trail (as ++ bs) = .ok trail' ↔
      ∃ mid, t.walkFrom trail as = .ok mid ∧ t.walkFrom mid bs = .ok trail' := by
  induction as generalizing trail with
  | nil =>
    constructor
    · exact fun h => ⟨trail, rfl, h⟩
    · rintro ⟨mid, hmid, h⟩
      cases hmid
      exact h
  | cons part as ih =>
    simp only [List.cons_append, walkFrom_cons_eq_ok, ih]
    constructor
    · rintro ⟨x, hx, y, hy, h⟩
      exact ⟨y, ⟨x, hx, hy⟩, h⟩
    · rintro ⟨y, ⟨x, hx, hy⟩, h⟩
      exact ⟨x, hx, y, hy, h⟩

theorem walkFrom_replicate_here {trail trail' : Trail} {k : Nat}
    (h : t.walkFrom trail (List.replicate k .here) = .ok trail') : trail' = trail := by
  induction k with
  | zero => exact (Except.ok.inj h).symm
  | succ k ih =>
    obtain ⟨mid, hstep, hrest⟩ := walkFrom_cons_eq_ok.mp h
    have hmid : mid = trail := (step_eq_ok hstep).2
    rw [hmid] at hrest
    exact ih hrest

theorem walk_concat_eq_ok {front : List Path.Part} {part : Path.Part} {trail : Trail} :
    t.walk (front ++ [part]) = .ok trail ↔
      ∃ mid, t.walk front = .ok mid ∧ t.step mid part = .ok trail := by
  rw [walk, walkFrom_append_eq_ok]
  refine exists_congr fun mid => and_congr_right fun _ => ?_
  rw [walkFrom_cons_eq_ok]
  constructor
  · rintro ⟨trail', hstep, hnil⟩
    cases hnil
    exact hstep
  · exact fun hstep => ⟨trail, hstep, rfl⟩

theorem isDirectory_of_leads_tail {trail : Trail} (h : Trail.Leads t trail)
    (hdir : (t.nodeAt trail).isDirectory = true) : (t.nodeAt trail.tail).isDirectory = true := by
  cases h with
  | root => exact hdir
  | enter h hchild => exact Node.isDirectory_of_child? hchild

/-- A last name is looked up in the directory that the parts before it lead to. -/
theorem walkToDirectory_of_step {front : List Path.Part} {part : Path.Part} {mid trail : Trail}
    (hfront : t.walk front = .ok mid) (hstep : t.step mid part = .ok trail) :
    t.walkToDirectory front = .ok mid := by
  rw [walkToDirectory, hfront]
  exact if_pos (step_eq_ok hstep).1

/-- The last part of a path to a file is its name in a directory. -/
theorem walk_to_file {front : List Path.Part} {part : Path.Part} {trail : Trail}
    (h : t.walk (front ++ [part]) = .ok trail) (hfile : (t.nodeAt trail).isDirectory = false) :
    ∃ n mid, part = .name n ∧ t.walk front = .ok mid ∧ t.step mid (.name n) = .ok trail := by
  obtain ⟨mid, hfront, hstep⟩ := walk_concat_eq_ok.mp h
  have hleads : Trail.Leads t mid := Trail.Leads.root.walkFrom hfront
  obtain ⟨hdir, hpart⟩ := step_eq_ok hstep
  cases part with
  | here =>
    rw [hpart, hdir] at hfile
    cases hfile
  | up =>
    rw [hpart, isDirectory_of_leads_tail hleads hdir] at hfile
    cases hfile
  | name n => exact ⟨n, mid, rfl, hfront, hstep⟩

end Tree

end Larder
