import Larder.Api.Reply
import Larder.Proofs.Literals

/-! An object that has been written reads back as its members in the order of their names, if each
of its values reads back. The reader takes a member, then the rest of the object, and orders the
members once it is at the closing brace. So what the service answers can be read. -/

namespace Larder

namespace Json

open Text.Utf8

/-- Bytes that read as a value, whatever follows them. -/
def Reads (bs : Bytes) (v : Value) : Prop :=
  ∀ bound depth p rest, ∃ p', readValue bound depth ⟨p, bs ++ rest⟩ = .ok (v, ⟨p', rest⟩)

/-- A text that is one value, with nothing behind it. -/
def Decodes (text : String) (v : Value) : Prop :=
  ∃ p, nextValue (.start (utf8 text)) = .ok (some v, ⟨p, []⟩)

theorem utf8_append (a b : String) : utf8 (a ++ b) = utf8 a ++ utf8 b := by
  rw [utf8, utf8, utf8, String.toList_append, encode_append]

theorem utf8_quote (s : String) :
    utf8 (quote s) = 34 :: encode (s.toList.flatMap escapeChar ++ ['"']) := by
  rw [utf8, quote, String.toList_ofList, quoteChars, encode_cons]
  rfl

theorem reads_text (s : String) : Reads (utf8 (Value.text s).render) (.text s) := by
  intro bound depth p rest
  obtain ⟨p', h⟩ := readText_literal s.toList (p.after 34) rest
  rw [String.ofList_toList] at h
  refine ⟨p', ?_⟩
  rw [Value.render, utf8_quote, List.cons_append, readValue_quote, h]
  rfl

theorem reads_bool (b : Bool) : Reads (utf8 (Value.bool b).render) (.bool b) := by
  intro bound depth p rest
  cases b with
  | true =>
    refine ⟨p.afterAll [116, 114, 117, 101], ?_⟩
    cases depth <;> rfl
  | false =>
    refine ⟨p.afterAll [102, 97, 108, 115, 101], ?_⟩
    cases depth <;> rfl

/-- Members in the order of their names are added one by one. -/
theorem foldl_addMember {members done : List (String × Value)}
    (hsorted : members.Pairwise fun a b => a.1 < b.1)
    (hdone : ∀ a ∈ done, ∀ b ∈ members, a.1 < b.1) :
    members.foldl addMember done = members.reverse ++ done := by
  induction members generalizing done with
  | nil => rfl
  | cons m members ih =>
    obtain ⟨hfirst, hrest⟩ := List.pairwise_cons.mp hsorted
    have hadd : addMember done m = m :: done := by
      cases done with
      | nil => rfl
      | cons d done =>
        have hlt := hdone d List.mem_cons_self m List.mem_cons_self
        exact if_neg fun he : d.1 = m.1 => String.lt_irrefl m.1 (he ▸ hlt)
    have hnext : ∀ a ∈ m :: done, ∀ b ∈ members, a.1 < b.1 := by
      intro a ha b hb
      rcases List.mem_cons.mp ha with rfl | ha
      · exact hfirst b hb
      · exact hdone a ha b (List.mem_cons_of_mem m hb)
    rw [List.foldl_cons, hadd, ih hrest hnext, List.reverse_cons, List.append_assoc]
    rfl

/-- There is one way to order members by names that differ. -/
theorem orderMembers_of_perm {members sorted : List (String × Value)}
    (hperm : members.Perm sorted) (hsorted : sorted.Pairwise fun a b => a.1 < b.1) :
    orderMembers members = sorted := by
  have hmerged : (members.mergeSort fun a b => !decide (b.1 < a.1)).Perm sorted :=
    (List.mergeSort_perm _ _).trans hperm
  have hdistinct : sorted.Pairwise fun a b => a.1 ≠ b.1 :=
    hsorted.imp fun {a b} hlt (he : a.1 = b.1) => String.lt_irrefl b.1 (he ▸ hlt)
  have hle : (members.mergeSort fun a b => !decide (b.1 < a.1)).Pairwise
      fun a b => (!decide (b.1 < a.1)) = true := by
    refine List.pairwise_mergeSort (fun a b c hab hbc => ?_) (fun a b => ?_) _
    · rw [Bool.not_eq_true', decide_eq_false_iff_not, String.not_lt] at *
      exact String.le_trans hab hbc
    · rw [Bool.or_eq_true, Bool.not_eq_true', Bool.not_eq_true', decide_eq_false_iff_not,
        decide_eq_false_iff_not, String.not_lt, String.not_lt]
      exact String.le_total _ _
  have hlt : (members.mergeSort fun a b => !decide (b.1 < a.1)).Pairwise fun a b => a.1 < b.1 := by
    have hne := (hmerged.pairwise_iff fun h => Ne.symm h).mpr hdistinct
    refine (hle.and hne).imp fun ⟨hle, hne⟩ => ?_
    rw [Bool.not_eq_true', decide_eq_false_iff_not, String.not_lt] at hle
    exact Std.lt_of_le_of_ne hle hne
  rw [orderMembers, hmerged.eq_of_pairwise (fun a b _ _ hab hba => (String.lt_asymm hab hba).elim)
    hlt hsorted, foldl_addMember hsorted fun a ha => (List.not_mem_nil ha).elim, List.append_nil,
    List.reverse_reverse]

section Next

variable {c : Cursor} {p : Place} {rest : Bytes}

theorem nextMember_first (h : c.skipBlank = ⟨p, 34 :: rest⟩) :
    nextMember true c = .ok (true, ⟨p, 34 :: rest⟩) := by
  rw [nextMember, h]
  rfl

theorem nextMember_comma (h : c.skipBlank = ⟨p, 44 :: rest⟩) {p' : Place} {rest' : Bytes}
    (hname : Cursor.skipBlank ⟨p.after 44, rest⟩ = ⟨p', 34 :: rest'⟩) :
    nextMember false c = .ok (true, ⟨p', 34 :: rest'⟩) := by
  simp only [nextMember, h, Cursor.skip, hname]
  rfl

theorem nextMember_brace (h : c.skipBlank = ⟨p, 125 :: rest⟩) (first : Bool) :
    nextMember first c = .ok (false, ⟨p, 125 :: rest⟩) := by
  rw [nextMember, h]
  rfl

theorem readColon_of_skipBlank (h : c.skipBlank = ⟨p, 58 :: rest⟩) :
    readColon c = .ok ⟨p.after 58, rest⟩ := by
  rw [readColon, h]
  rfl

end Next

/-- A member as it is written. -/
def memberBytes (member : String × Value) : Bytes :=
  utf8 (quote member.1) ++ 58 :: utf8 member.2.render

/-- What follows a member of an object. -/
def afterMember : List (String × Value) → Bytes
  | [] => [125]
  | member :: members => 44 :: (memberBytes member ++ afterMember members)

theorem utf8_renderMembers (member : String × Value) (members : List (String × Value)) :
    utf8 (renderMembers ((member :: members).map fun (name, v) => (name, v.render))) =
      123 :: (memberBytes member ++ afterMember members) := by
  have hcolon : utf8 ":" = [58] := rfl
  have hcomma : utf8 "," = [44] := rfl
  have hlist : utf8 (",".intercalate ((member :: members).map fun (name, v) =>
      quote name ++ ":" ++ v.render)) ++ [125] = memberBytes member ++ afterMember members := by
    induction members generalizing member with
    | nil =>
      rw [List.map_singleton, String.intercalate_singleton, utf8_append, utf8_append, hcolon,
        memberBytes, afterMember]
      simp only [List.append_assoc, List.singleton_append]
    | cons next members ih =>
      have hnext := ih next
      rw [List.map_cons] at hnext
      rw [List.map_cons, List.map_cons, String.intercalate_cons_cons, utf8_append, utf8_append,
        utf8_append, utf8_append, hcolon, hcomma, List.append_assoc, hnext]
      simp only [memberBytes, afterMember, List.append_assoc, List.cons_append, List.nil_append]
  have hopen : utf8 "\x7b" = [123] := rfl
  have hclose : utf8 "\x7d" = [125] := rfl
  rw [renderMembers, utf8_append, utf8_append, hopen, hclose, List.map_map, List.append_assoc,
    List.singleton_append]
  exact congrArg (123 :: ·) hlist

section

variable {one : Cursor → Reading Value} {name : String} {v : Value}

/-- The reader takes a member that is there. -/
theorem readMembers_member
    (hone : ∀ p rest, ∃ p', one ⟨p, utf8 v.render ++ rest⟩ = .ok (v, ⟨p', rest⟩)) {first : Bool}
    {c : Cursor} {p : Place} {rest : Bytes}
    (hnext : nextMember first c = .ok (true, ⟨p, memberBytes (name, v) ++ rest⟩)) (fuel : Nat)
    (done : List (String × Value)) :
    ∃ p', readMembers one (fuel + 1) first done c =
      readMembers one fuel false ((name, v) :: done) ⟨p', rest⟩ := by
  obtain ⟨p₁, hname⟩ := readText_literal name.toList (p.after 34) (58 :: (utf8 v.render ++ rest))
  rw [String.ofList_toList] at hname
  obtain ⟨p₂, hvalue⟩ := hone (p₁.after 58) rest
  refine ⟨p₂, ?_⟩
  have hcolon : readColon ⟨p₁, 58 :: (utf8 v.render ++ rest)⟩ =
      .ok ⟨p₁.after 58, utf8 v.render ++ rest⟩ :=
    readColon_of_skipBlank (skipBlank_of_not_blank (by decide) _ _)
  rw [memberBytes, utf8_quote, List.append_assoc, List.cons_append, List.cons_append] at hnext
  rw [readMembers, hnext]
  simp only [Cursor.skip, hname, hcolon, hvalue]

end

/-- The members that are left, up to the closing brace. -/
theorem readMembers_afterMember {one : Cursor → Reading Value} {members : List (String × Value)}
    (hone : ∀ m ∈ members, ∀ p rest, ∃ p', one ⟨p, utf8 m.2.render ++ rest⟩ = .ok (m.2, ⟨p', rest⟩))
    {fuel : Nat} (hfuel : members.length < fuel) (done : List (String × Value)) (p : Place)
    (rest : Bytes) :
    ∃ p', readMembers one fuel false done ⟨p, afterMember members ++ rest⟩ =
      .ok (.object (orderMembers (members.reverse ++ done)), ⟨p', rest⟩) := by
  induction members generalizing fuel done p with
  | nil =>
    obtain ⟨fuel, rfl⟩ := Nat.exists_eq_succ_of_ne_zero (Nat.ne_zero_of_lt hfuel)
    refine ⟨p.after 125, ?_⟩
    rw [readMembers, afterMember, List.singleton_append,
      nextMember_brace (skipBlank_of_not_blank (by decide) p rest)]
    rfl
  | cons member members ih =>
    obtain ⟨fuel, rfl⟩ := Nat.exists_eq_succ_of_ne_zero (Nat.ne_zero_of_lt hfuel)
    have hnext : nextMember false ⟨p, afterMember (member :: members) ++ rest⟩ =
        .ok (true, ⟨p.after 44, memberBytes member ++ (afterMember members ++ rest)⟩) := by
      simp only [afterMember, memberBytes, utf8_quote, List.cons_append, List.append_assoc]
      exact nextMember_comma (skipBlank_of_not_blank (by decide) p _)
        (skipBlank_of_not_blank (by decide) _ _)
    obtain ⟨p₁, hmember⟩ := readMembers_member (hone member List.mem_cons_self) hnext fuel done
    obtain ⟨p₂, hrest⟩ := ih (fun m hm => hone m (List.mem_cons_of_mem member hm))
      (Nat.lt_of_succ_lt_succ hfuel) (member :: done) p₁
    refine ⟨p₂, ?_⟩
    rw [hmember, hrest, List.reverse_cons, List.append_assoc]
    rfl

theorem length_le_afterMember (members : List (String × Value)) :
    members.length ≤ (afterMember members).length := by
  induction members with
  | nil => exact Nat.zero_le _
  | cons member members ih =>
    rw [afterMember, List.length_cons, List.length_cons, List.length_append]
    omega

/-- An object that has been written is its members in the order of their names. -/
theorem decodes_renderMembers {member : String × Value} {members sorted : List (String × Value)}
    (hreads : ∀ m ∈ member :: members, Reads (utf8 m.2.render) m.2)
    (hperm : (member :: members).Perm sorted)
    (hsorted : (sorted.map Prod.fst).Pairwise fun a b => a < b) :
    Decodes (renderMembers ((member :: members).map fun (name, v) => (name, v.render)))
      (.object sorted) := by
  generalize hbytes : memberBytes member ++ afterMember members = bytes
  have hlength : members.length ≤ bytes.length := by
    have := length_le_afterMember members
    rw [← hbytes, List.length_append]
    omega
  have hnext : nextMember true ⟨Place.after ⟨1, 0⟩ 123, bytes⟩ =
      .ok (true, ⟨Place.after ⟨1, 0⟩ 123, memberBytes member ++ afterMember members⟩) := by
    rw [← hbytes, memberBytes, utf8_quote, List.cons_append, List.cons_append]
    exact nextMember_first (skipBlank_of_not_blank (by decide) _ _)
  have hone := fun m hm => hreads m hm (bytes.length + 2) 126
  obtain ⟨p₁, hmember⟩ := readMembers_member (hone member List.mem_cons_self) hnext
    (bytes.length + 1) []
  obtain ⟨p₂, hrest⟩ := readMembers_afterMember
    (fun m hm => hone m (List.mem_cons_of_mem member hm)) (Nat.lt_succ_of_le hlength) [member] p₁ []
  have horder : (members.reverse ++ [member]).Perm sorted := by
    rw [← List.reverse_cons]
    exact (List.reverse_perm _).trans hperm
  rw [List.append_nil, orderMembers_of_perm horder (List.pairwise_map.mp hsorted)] at hrest
  have hread : readValue (bytes.length + 2) depthLimit ⟨⟨1, 0⟩, 123 :: bytes⟩ =
      .ok (.object sorted, ⟨p₂, []⟩) := by
    rw [depthLimit, readValue, readValueWith, skipBlank_of_not_blank (by decide)]
    exact hmember.trans hrest
  refine ⟨p₂, ?_⟩
  rw [utf8_renderMembers, hbytes, Cursor.start, nextValue, skipBlank_of_not_blank (by decide)]
  simp only [hread]

end Json

namespace Api.Reply

open Json

theorem decodes_entry (key value : String) :
    Decodes (entry key value).text (.object [("key", .text key), ("value", .text value)]) := by
  refine decodes_renderMembers ?_ (.refl _) ?_
  · simp [reads_text]
  · show ["key", "value"].Pairwise fun a b => a < b
    decide +kernel

theorem decodes_deleted (key : String) (existed : Bool) :
    Decodes (deleted key existed).text
      (.object [("existed", .bool existed), ("key", .text key),
        ("message", .text (deletedMessage key existed))]) := by
  refine decodes_renderMembers ?_ (List.reverse_perm _).symm ?_
  · simp [reads_text, reads_bool]
  · show ["existed", "key", "message"].Pairwise fun a b => a < b
    decide +kernel

theorem decodes_failure (text : String) :
    Decodes (failure text).text (.object [("error", .text text)]) := by
  refine decodes_renderMembers ?_ (.refl _) (List.pairwise_singleton _ _)
  simp [reads_text]

end Api.Reply

end Larder
