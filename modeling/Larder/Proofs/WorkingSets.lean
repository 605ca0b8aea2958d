import Mathlib.Data.Finset.Card
import Larder.Proofs.ShelfRequests
import Larder.Proofs.UnwrittenReads

/-! What a shelf keeps. The keys in front of a key in the order of last use have all been put or
found since it was; so it has to go for others only when there are as many of these as there is
room for, and before that it keeps its entry unless that is removed or expires. All is told from
the requests and their answers. -/

namespace Larder.Shelf

/-- The requests with their answers. -/
def exchanges (s : Shelf) : List Request → List (Request × Response)
  | [] => []
  | request :: requests =>
    (request, (s.serve request).1) :: (s.serve request).2.exchanges requests

theorem exchanges_concat (s : Shelf) (requests : List Request) (request : Request) :
    s.exchanges (requests ++ [request]) =
      s.exchanges requests ++ [(request, ((s.after requests).serve request).1)] := by
  induction requests generalizing s with
  | nil => rfl
  | cons first requests ih =>
    rw [List.cons_append, exchanges, exchanges, ih]
    rfl

/-- The key that has become the one used last: it was put, or a look-up found it. -/
def promoted? : Request × Response → Option String
  | (.put key _ _, _) => some key
  | (.get key _, .found (.hit _)) => some key
  | _ => none

/-- The key that was taken away, because that was asked for or because it had expired. -/
def taken? : Request × Response → Option String
  | (.remove key, _) => some key
  | (.removeIfExpired key _, .removed true) => some key
  | (.get key _, .found .expired) => some key
  | _ => none

/-- The keys that had to go for the one that was put. -/
def evicted : Request × Response → List String
  | (.put .., .keys gone) => gone
  | _ => []

/-- The other keys that have been put or found since this one was. -/
def rivals (key : String) (xs : List (Request × Response)) : Finset String :=
  ((xs.filterMap promoted?).reverse.takeWhile fun other => other ≠ key).toFinset

/-- The entry of a key that keeps what was put last. -/
def renewed (key : String) (entry : Entry) : Request → Entry
  | .put other value deadline => if other = key then ⟨value, deadline⟩ else entry
  | _ => entry

theorem rivals_concat (key : String) (xs : List (Request × Response)) (x : Request × Response) :
    rivals key (xs ++ [x]) =
      match promoted? x with
      | none => rivals key xs
      | some other => if other = key then ∅ else insert other (rivals key xs) := by
  unfold rivals
  rw [List.filterMap_append, List.reverse_append]
  cases hx : promoted? x with
  | none => simp [hx]
  | some other =>
    simp only [List.filterMap_cons, hx, List.filterMap_nil, List.reverse_cons, List.reverse_nil,
      List.nil_append, List.singleton_append, List.takeWhile_cons]
    by_cases hkey : other = key
    · simp [hkey]
    · simp [hkey]

namespace Ranking

variable {l : Ranking} {key other : String} {entry : Entry} {met : Finset String} {capacity : Nat}
  {request : Request}

/-- If the key is there, only these stand in front of it. -/
def OnlyAhead (key : String) (met : Finset String) (l : Ranking) : Prop :=
  ∀ entry, (key, entry) ∈ l → ∀ k ∈ l.ahead key, k ∈ met

theorem onlyAhead_cons_self (entry : Entry) (l : Ranking) (met : Finset String) :
    OnlyAhead key met ((key, entry) :: l) := by
  intro _ _ k hk
  rw [ahead_cons_self] at hk
  cases hk

namespace OnlyAhead

theorem length_le_card (h : OnlyAhead key met l) (hl : l.Distinct) (hmem : (key, entry) ∈ l) :
    (l.ahead key).length ≤ met.card := by
  rw [← List.toFinset_card_of_nodup (hl.nodup_ahead key)]
  exact Finset.card_le_card fun k hk => h entry hmem k (List.mem_toFinset.mp hk)

theorem without (h : OnlyAhead key met l) (other : String) :
    OnlyAhead key met (l.without other) := by
  intro entry hmem k hk
  obtain ⟨hmem, hne⟩ := mem_without.mp hmem
  rw [ahead_without hne] at hk
  exact h entry hmem k (List.mem_of_mem_filter hk)

theorem cons (h : OnlyAhead key met l) (hne : other ≠ key) (entry : Entry) :
    OnlyAhead key (insert other met) ((other, entry) :: l) := by
  intro held hmem k hk
  have hmem := (List.mem_cons.mp hmem).resolve_left fun heq =>
    hne (congrArg Prod.fst heq).symm
  rw [ahead_cons_of_ne (p := (other, entry)) hne] at hk
  rcases List.mem_cons.mp hk with rfl | hk
  · exact Finset.mem_insert_self _ _
  · exact Finset.mem_insert_of_mem (h held hmem k hk)

theorem take (h : OnlyAhead key met l) (n : Nat) : OnlyAhead key met (l.take n) := by
  intro entry hmem k hk
  rw [ahead_take hmem] at hk
  exact h entry (List.mem_of_mem_take hmem) k hk

end OnlyAhead

/-- What a request with its answer makes of a ranking. -/
inductive Makes (capacity : Nat) (l : Ranking) : Request × Response → Ranking → Prop
  | puts (key value : String) (deadline : Deadline) :
      Makes capacity l
        (.put key value deadline, .keys (l.put capacity key value deadline).1)
        (((key, ⟨value, deadline⟩) :: l.without key).take capacity)
  | finds {key : String} {entry : Entry} (now : Millis) (hfind : l.lookup key = some entry) :
      Makes capacity l (.get key now, .found (.hit entry.value)) ((key, entry) :: l.without key)
  | takes {x : Request × Response} {key : String} (hnone : promoted? x = none)
      (htaken : taken? x = some key) : Makes capacity l x (l.without key)
  | leaves {x : Request × Response} (hnone : promoted? x = none) : Makes capacity l x l

theorem makes_serve (capacity : Nat) (l : Ranking) (request : Request) :
    Makes capacity l (request, (l.serve capacity request).1) (l.serve capacity request).2 := by
  cases request with
  | put key value deadline => exact .puts key value deadline
  | get key now =>
    simp only [serve, get]
    cases hfind : l.lookup key with
    | none => exact .leaves rfl
    | some entry =>
      dsimp only
      split
      · exact .takes rfl rfl
      · exact .finds now hfind
  | remove key => exact .takes rfl rfl
  | removeIfExpired key now =>
    simp only [serve, removeIfExpired]
    split
    · exact .takes rfl rfl
    · exact .leaves rfl
  | peek | expiredKeys | keysByRecency => exact .leaves rfl

variable {l' : Ranking} {xs : List (Request × Response)} {x : Request × Response}

theorem evicted_of_not_promoted (h : promoted? x = none) : evicted x = [] := by
  obtain ⟨request, response⟩ := x
  cases request with
  | put => cases h
  | _ => rfl

theorem renewed_of_not_promoted (h : promoted? x = none) (key : String) (entry : Entry) :
    renewed key entry x.1 = entry := by
  obtain ⟨request, response⟩ := x
  cases request with
  | put => cases h
  | _ => rfl

/-- An entry that comes to the front is in front of what has been promoted since, or is the key's
own. -/
theorem OnlyAhead.promote (h : OnlyAhead key (rivals key xs) l) (hx : promoted? x = some other)
    (entry : Entry) :
    OnlyAhead key (rivals key (xs ++ [x])) ((other, entry) :: l.without other) := by
  rw [rivals_concat, hx]
  dsimp only
  by_cases hkey : other = key
  · subst hkey
    exact onlyAhead_cons_self entry _ _
  · rw [if_neg hkey]
    exact (h.without other).cons hkey entry

namespace Makes

/-- What stands in front of a key has been promoted since the key was. -/
theorem onlyAhead (h : Makes capacity l x l') (hbefore : OnlyAhead key (rivals key xs) l) :
    OnlyAhead key (rivals key (xs ++ [x])) l' := by
  cases h with
  | puts other value deadline => exact (hbefore.promote rfl _).take capacity
  | finds now hfind => exact hbefore.promote rfl _
  | takes hnone htaken =>
    rw [rivals_concat, hnone]
    exact hbefore.without _
  | leaves hnone =>
    rw [rivals_concat, hnone]
    exact hbefore

/-- A key has to go only when as many others have been promoted since as there is room for. -/
theorem le_card_of_evicted (h : Makes capacity l x l') (hl : l.Distinct)
    (hbefore : OnlyAhead key (rivals key xs) l) (hgone : key ∈ evicted x) :
    capacity ≤ (rivals key (xs ++ [x])).card := by
  cases h with
  | finds => cases hgone
  | takes hnone | leaves hnone => rw [evicted_of_not_promoted hnone] at hgone; cases hgone
  | puts other value deadline =>
    have hall : Distinct ((other, ⟨value, deadline⟩) :: l.without other) := hl.cons_without other _
    obtain ⟨p, hdropped, rfl⟩ := List.mem_map.mp hgone
    rw [List.mem_reverse] at hdropped
    have hmem := List.mem_of_mem_drop hdropped
    have hpast :
        ¬ (ahead p.1 ((other, ⟨value, deadline⟩) :: l.without other)).length < capacity := by
      rw [← mem_take_iff hall hmem]
      exact fun hkept =>
        List.disjoint_take_drop (List.Nodup.of_map _ hall) (Nat.le_refl _) hkept hdropped
    exact Nat.le_trans (Nat.le_of_not_lt hpast)
      ((hbefore.promote rfl _).length_le_card hall hmem)

/-- A key that is not taken away keeps its entry, or has a new one, as long as fewer others have
been promoted since. -/
theorem mem_renewed (h : Makes capacity l x l') (hl : l.Distinct)
    (hbefore : OnlyAhead key (rivals key xs) l) (hless : (rivals key (xs ++ [x])).card < capacity)
    (hkept : taken? x ≠ some key) (hmem : (key, entry) ∈ l) :
    (key, renewed key entry x.1) ∈ l' := by
  cases h with
  | puts other value deadline =>
    have hall : Distinct ((other, ⟨value, deadline⟩) :: l.without other) := hl.cons_without other _
    have hin : (key, renewed key entry (.put other value deadline)) ∈
        (other, ⟨value, deadline⟩) :: l.without other := by
      by_cases hkey : other = key
      · rw [renewed, if_pos hkey, hkey]
        exact List.mem_cons_self
      · rw [renewed, if_neg hkey]
        exact List.mem_cons_of_mem _ (mem_without.mpr ⟨hmem, Ne.symm hkey⟩)
    exact (mem_take_iff hall hin).mpr
      (Nat.lt_of_le_of_lt ((hbefore.promote rfl _).length_le_card hall hin) hless)
  | finds now hfind => exact hl.mem_promoted (hl.lookup_eq_some_iff.mp hfind) hmem
  | @takes _ other hnone htaken =>
    rw [renewed_of_not_promoted hnone]
    refine mem_without.mpr ⟨hmem, ?_⟩
    rintro rfl
    exact hkept htaken
  | leaves hnone =>
    rw [renewed_of_not_promoted hnone]
    exact hmem

/-- A key that is promoted comes to the front if there is any room. -/
theorem exists_eq_cons (h : Makes capacity l x l') (hroom : 0 < capacity)
    (hkey : promoted? x = some key) : ∃ entry rest, l' = (key, entry) :: rest := by
  obtain ⟨n, rfl⟩ : ∃ n, capacity = n + 1 := ⟨capacity - 1, by omega⟩
  cases h with
  | puts => cases hkey; exact ⟨_, _, List.take_succ_cons⟩
  | finds => cases hkey; exact ⟨_, _, rfl⟩
  | takes hnone | leaves hnone => rw [hnone] at hkey; cases hkey

end Makes

end Ranking

variable {s : Shelf} {capacity : Nat} {l : Ranking} {key : String} {entry : Entry}
  {later : List Request}

/-- What holds after some requests of a key that stood in front of all others. -/
structure Keeping (capacity : Nat) (s : Shelf) (key : String) (entry : Entry)
    (later : List Request) (l : Ranking) : Prop where
  follows : Follows capacity (s.after later) l
  ahead : l.OnlyAhead key (rivals key (s.exchanges later))
  kept : (∀ front, front <+: later → (rivals key (s.exchanges front)).card < capacity) →
    (∀ x ∈ s.exchanges later, taken? x ≠ some key) →
    (key, later.foldl (renewed key) entry) ∈ l

theorem exists_keeping (h : Follows capacity s ((key, entry) :: l)) (later : List Request) :
    ∃ l', Keeping capacity s key entry later l' := by
  induction later using List.reverseRecOn with
  | nil => exact ⟨_, h, Ranking.onlyAhead_cons_self entry l _, fun _ _ => List.mem_cons_self⟩
  | append_singleton later request ih =>
    obtain ⟨l', hfollows, hahead, hkept⟩ := ih
    obtain ⟨hsame, hnext⟩ := hfollows.serve request
    have hmakes := l'.makes_serve capacity request
    rw [← hsame] at hmakes
    have hall := s.exchanges_concat later request
    refine ⟨(l'.serve capacity request).2, ?_, ?_, fun hless htaken => ?_⟩
    · rw [after_append]
      exact hnext
    · rw [hall]
      exact hmakes.onlyAhead hahead
    · rw [hall] at htaken
      have hmem := hkept (fun front hfront => hless front (hfront.trans (List.prefix_append _ _)))
        fun x hx => htaken x (List.mem_append_left _ hx)
      rw [List.foldl_append]
      exact hmakes.mem_renewed hfollows.distinct hahead (hall ▸ hless _ (List.prefix_refl _))
        (htaken _ (List.mem_append_right _ List.mem_cons_self)) hmem

/-- On a shelf with room for some entries that has been used in any way, let a key be put or found.
Whatever is asked for after that, the key goes for another one only when at least as many other
keys as there is room for have been put or found since it last was; and as long as there are fewer
of these, unless it is removed or its entry expires, it keeps its entry, or the one that has been
put for it since. -/
theorem keeps_working_set {capacity : Nat} (hroom : 0 < capacity) {earlier : List Request}
    {request : Request} {key : String}
    (hused : promoted? (request, (((empty capacity).after earlier).serve request).1) = some key)
    (later : List Request) :
    let s := (empty capacity).after (earlier ++ [request])
    (∀ other value deadline, key ∈ ((s.after later).put other value deadline).1 →
        capacity ≤ (rivals key (s.exchanges (later ++ [.put other value deadline]))).card) ∧
      ∃ entry, s.find? key = some entry ∧
        ((∀ front, front <+: later → (rivals key (s.exchanges front)).card < capacity) →
          (∀ x ∈ s.exchanges later, taken? x ≠ some key) →
          (s.after later).find? key = some (later.foldl (renewed key) entry)) := by
  intro s
  obtain ⟨l, hbefore⟩ := (Follows.empty capacity).after earlier
  obtain ⟨hsame, hnow⟩ := hbefore.serve request
  rw [hsame] at hused
  obtain ⟨entry, rest, hfront⟩ := (l.makes_serve capacity request).exists_eq_cons hroom hused
  have hs : Follows capacity s ((key, entry) :: rest) := by
    rw [← hfront]
    simp only [s, after_append]
    exact hnow
  obtain ⟨l', hfollows, hahead, hkept⟩ := exists_keeping hs later
  refine ⟨fun other value deadline hgone => ?_, entry, ?_, fun hless htaken => ?_⟩
  · obtain ⟨hputs, -⟩ := hfollows.serve (.put other value deadline)
    have hmakes := l'.makes_serve capacity (.put other value deadline)
    rw [← hputs] at hmakes
    rw [exchanges_concat]
    exact hmakes.le_card_of_evicted hfollows.distinct hahead hgone
  · rw [hs.find?_eq, hs.distinct.lookup_eq_some_iff]
    exact List.mem_cons_self
  · rw [hfollows.find?_eq, hfollows.distinct.lookup_eq_some_iff]
    exact hkept hless htaken

/-- With room for two entries, one that has been found is still there after another key was put, and
goes for the second. -/
theorem keeps_working_set_of_two :
    let earlier : List Request := [.put "a" "1" (some 9), .put "b" "2" none]
    let s := (empty 2).after (earlier ++ [.get "a" 5])
    let later : List Request := [.put "c" "3" none]
    promoted? (.get "a" 5, (((empty 2).after earlier).serve (.get "a" 5)).1) = some "a" ∧
      (s.after later).find? "a" = some ⟨"1", some 9⟩ ∧
      "a" ∈ ((s.after later).put "d" "4" none).1 ∧
      2 ≤ (rivals "a" (s.exchanges [.put "c" "3" none, .put "d" "4" none])).card := by
  intro earlier s later
  have hbefore : Follows 2 ((empty 2).after earlier) [("b", ⟨"2", none⟩), ("a", ⟨"1", some 9⟩)] :=
    ((Follows.empty 2).serveAll earlier).2
  have hs : Follows 2 s [("a", ⟨"1", some 9⟩), ("b", ⟨"2", none⟩)] :=
    (hbefore.serve (.get "a" 5)).2
  have hlater : Follows 2 (s.after later) [("c", ⟨"3", none⟩), ("a", ⟨"1", some 9⟩)] :=
    (hs.serveAll later).2
  have hused : promoted? (.get "a" 5, (((empty 2).after earlier).serve (.get "a" 5)).1) =
      some "a" := by
    rw [(hbefore.serve (.get "a" 5)).1]
    rfl
  have hgone : "a" ∈ ((s.after later).put "d" "4" none).1 := by
    rw [(hlater.put "d" "4" none).1]
    decide
  have hless : ∀ front, front <+: later → (rivals "a" (s.exchanges front)).card < 2 := by
    intro front hfront
    rcases List.prefix_cons_iff.mp hfront with rfl | ⟨_, rfl, hnil⟩
    · decide
    · rw [List.prefix_nil.mp hnil]
      decide
  obtain ⟨hevicted, entry, hentry, hkept⟩ :=
    keeps_working_set (Nat.zero_lt_two) hused later
  have htaken : ∀ x ∈ s.exchanges later, taken? x ≠ some "a" := by
    intro x hx
    cases List.mem_singleton.mp hx
    exact (Option.some_ne_none "a").symm
  refine ⟨hused, ?_, hgone, hevicted "d" "4" none hgone⟩
  have hheld : s.find? "a" = some ⟨"1", some 9⟩ := hs.find?_eq "a"
  obtain rfl := Option.some.inj (hheld.symm.trans hentry)
  exact hkept hless htaken

end Larder.Shelf
