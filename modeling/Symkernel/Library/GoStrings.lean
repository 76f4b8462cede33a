import Symkernel.Library.GoText

/-!
# Go's `strings` package

Texts are sequences of Unicode characters. Trimming and cutting into fields are stated for any
set of characters, of which white space is one.
-/

namespace Symkernel.Library

open List

abbrev Text := List Char

section Fields

variable {α : Type*} (p : α → Bool)

def trimBy (s : List α) : List α :=
  (s.dropWhile p).rdropWhile p

def fieldsBy (s : List α) : List (List α) :=
  (s.splitOnP p).filter fun w => !w.isEmpty

variable {p}

variable {s w blank : List α}

lemma trimBy_append_left (hblank : ∀ a ∈ blank, p a = true) (s : List α) :
    trimBy p (blank ++ s) = trimBy p s := by
  rw [trimBy, dropWhile_append_of_pos hblank, trimBy]

lemma trimBy_append_right (s : List α) (hblank : ∀ a ∈ blank, p a = true)
    (hs : ∃ a ∈ s, p a = false) : trimBy p (s ++ blank) = trimBy p s := by
  have hne : (s.dropWhile p).isEmpty = false := by
    rw [isEmpty_eq_false_iff]
    intro hnil
    obtain ⟨a, ha, hpa⟩ := hs
    rw [List.dropWhile_eq_nil_iff.mp hnil a ha] at hpa
    cases hpa
  have hback : ∀ a ∈ blank.reverse, p a = true := fun a ha => hblank a (List.mem_reverse.mp ha)
  rw [trimBy, dropWhile_append, hne, if_neg Bool.false_ne_true, trimBy, rdropWhile,
    reverse_append, dropWhile_append_of_pos hback, rdropWhile]

lemma count_dropWhile [BEq α] [LawfulBEq α] {a : α} (ha : p a = false) (s : List α) :
    (s.dropWhile p).count a = s.count a := by
  have htake : (s.takeWhile p).count a = 0 := by
    rw [List.count_eq_zero]
    intro hmem
    rw [mem_takeWhile_imp hmem] at ha
    cases ha
  conv_rhs => rw [← takeWhile_append_dropWhile (p := p) (l := s), count_append, htake]
  rw [Nat.zero_add]

lemma count_rdropWhile [BEq α] [LawfulBEq α] {a : α} (ha : p a = false) (s : List α) :
    (s.rdropWhile p).count a = s.count a := by
  rw [rdropWhile, count_reverse, count_dropWhile ha, count_reverse]

lemma count_trimBy [BEq α] [LawfulBEq α] {a : α} (ha : p a = false) (s : List α) :
    (trimBy p s).count a = s.count a := by
  rw [trimBy, count_rdropWhile ha, count_dropWhile ha]

lemma trimBy_sublist (s : List α) : List.Sublist (trimBy p s) s :=
  (IsPrefix.sublist <| rdropWhile_prefix p _).trans (dropWhile_sublist p)

lemma trimBy_eq_self (hhead : ∀ a ∈ s.head?, p a = false) (hlast : ∀ a ∈ s.getLast?, p a = false) :
    trimBy p s = s := by
  cases s with
  | nil => rfl
  | cons a s =>
    have ha : p a = false := hhead a rfl
    rw [trimBy, dropWhile_cons_of_neg (by rw [ha]; exact Bool.false_ne_true),
      rdropWhile_eq_self_iff]
    intro hne hp
    rw [hlast _ (List.getLast?_eq_getLast_of_ne_nil hne)] at hp
    cases hp

@[simp] lemma fieldsBy_nil : fieldsBy p [] = [] := by
  simp [fieldsBy]

lemma fieldsBy_append_cons (s t : List α) {a : α} (ha : p a = true) :
    fieldsBy p (s ++ a :: t) = fieldsBy p s ++ fieldsBy p t := by
  rw [fieldsBy, splitOnP_append_cons s t ha, filter_append]
  rfl

lemma not_of_mem_splitOnP (hw : w ∈ s.splitOnP p) : ∀ a ∈ w, p a = false := by
  induction s generalizing w with
  | nil =>
    rw [splitOnP_nil, mem_singleton] at hw
    simp [hw]
  | cons b s ih =>
    rw [splitOnP_cons_eq_if_modifyHead] at hw
    split at hw
    · obtain rfl | hw := List.mem_cons.mp hw
      · simp
      · exact ih hw
    · rename_i hb
      obtain ⟨first, rest, hsplit⟩ := exists_cons_of_ne_nil (splitOnP_ne_nil p s)
      rw [hsplit] at hw
      rw [hsplit] at ih
      obtain rfl | hw := List.mem_cons.mp hw
      · intro a ha
        obtain rfl | ha := List.mem_cons.mp ha
        · simpa using hb
        · exact ih mem_cons_self a ha
      · exact ih (mem_cons_of_mem _ hw)

lemma fieldsBy_word (hne : w ≠ []) (hw : ∀ a ∈ w, p a = false) : fieldsBy p w = [w] := by
  rw [fieldsBy, splitOnP_eq_singleton hw, filter_cons_of_pos (by simpa using hne)]
  rfl

end Fields

namespace Text

def trimSpace (s : Text) : Text :=
  trimBy goIsSpace s

def fields (s : Text) : List Text :=
  fieldsBy goIsSpace s

def split (c : Char) (s : Text) : List Text :=
  s.splitOn c

def join (parts : List Text) : Text :=
  [' '].intercalate parts

def trimSuffix (c : Char) (s : Text) : Text :=
  if s.getLast? = some c then s.dropLast else s

def trimRight (c : Char) (s : Text) : Text :=
  s.rdropWhile (· == c)

lemma trimSuffix_concat (s : Text) (c : Char) : trimSuffix c (s ++ [c]) = s := by
  rw [trimSuffix, List.getLast?_concat, if_pos rfl, dropLast_concat]

structure IsWord (w : Text) : Prop where
  ne_nil : w ≠ []
  solid : ∀ c ∈ w, goIsSpace c = false

/-- One word or more, one blank after every word but the last. -/
def Spaced (s : Text) : Prop :=
  ∃ ws : List Text, ws ≠ [] ∧ (∀ w ∈ ws, IsWord w) ∧ join ws = s

@[simp] lemma join_singleton (w : Text) : join [w] = w := by
  simp [join]

variable {ws lines : List Text}

lemma join_cons (w : Text) (h : ws ≠ []) : join (w :: ws) = w ++ ' ' :: join ws := by
  rw [join, intercalate_cons_of_ne_nil h, append_assoc]
  rfl

lemma join_append {vs : List Text} (hv : vs ≠ []) (hw : ws ≠ []) :
    join (vs ++ ws) = join vs ++ ' ' :: join ws := by
  induction vs with
  | nil => exact absurd rfl hv
  | cons v vs ih =>
    by_cases hvs : vs = []
    · subst hvs
      rw [singleton_append, join_cons v hw, join_singleton]
    · rw [cons_append, join_cons v (by simp [hvs]), ih hvs, join_cons v hvs,
        append_assoc, cons_append]

lemma fields_append_blank (s t : Text) : fields (s ++ ' ' :: t) = fields s ++ fields t :=
  fieldsBy_append_cons s t (by decide)

variable {s w line : Text}

lemma IsWord.fields (h : IsWord w) : Text.fields w = [w] :=
  fieldsBy_word h.ne_nil h.solid

lemma isWord_of_mem_fields (h : w ∈ fields s) : IsWord w := by
  obtain ⟨hw, hne⟩ := List.mem_filter.mp h
  exact ⟨by simpa using hne, not_of_mem_splitOnP hw⟩

lemma fields_join_eq_flatMap (ts : List Text) : fields (join ts) = ts.flatMap fields := by
  induction ts with
  | nil => exact fieldsBy_nil
  | cons t ts ih =>
    by_cases hnil : ts = []
    · subst hnil
      simp
    · rw [join_cons t hnil, fields_append_blank, ih, flatMap_cons]

lemma fields_join (h : ∀ w ∈ ws, IsWord w) : fields (join ws) = ws := by
  rw [fields_join_eq_flatMap]
  induction ws with
  | nil => rfl
  | cons w ws ih =>
    rw [flatMap_cons, (h w mem_cons_self).fields,
      ih fun v hv => h v (mem_cons_of_mem w hv), singleton_append]

lemma join_concat (ts : List Text) (t : Text) (c : Char) :
    join (ts ++ [t ++ [c]]) = join (ts ++ [t]) ++ [c] := by
  by_cases hnil : ts = []
  · subst hnil
    simp
  · rw [join_append hnil (cons_ne_nil _ _), join_append hnil (cons_ne_nil _ _),
      join_singleton, join_singleton, append_assoc, cons_append]

lemma count_join {c : Char} (hc : c ≠ ' ') (ts : List Text) :
    (join ts).count c = (ts.map fun t => t.count c).sum := by
  induction ts with
  | nil => rfl
  | cons t ts ih =>
    by_cases hnil : ts = []
    · subst hnil
      simp
    · rw [join_cons t hnil, count_append, count_cons_of_ne hc.symm, ih, map_cons, sum_cons]

namespace Spaced

variable {s t : Text}

lemma of_word (h : IsWord s) : Spaced s :=
  ⟨[s], cons_ne_nil _ _, by simpa using h, join_singleton s⟩

lemma fields_ne_nil (h : Spaced s) : fields s ≠ [] := by
  obtain ⟨ws, hne, hws, rfl⟩ := h
  rwa [fields_join hws]

lemma join_fields (h : Spaced s) : join (fields s) = s := by
  obtain ⟨ws, -, hws, rfl⟩ := h
  rw [fields_join hws]

lemma append (hs : Spaced s) (ht : Spaced t) : Spaced (s ++ ' ' :: t) := by
  refine ⟨fields s ++ fields t, by simp [hs.fields_ne_nil], fun w hw => ?_, ?_⟩
  · exact (List.mem_append.mp hw).elim isWord_of_mem_fields isWord_of_mem_fields
  · rw [join_append hs.fields_ne_nil ht.fields_ne_nil, hs.join_fields, ht.join_fields]

lemma join {ts : List Text} (hne : ts ≠ []) (h : ∀ t ∈ ts, Spaced t) : Spaced (Text.join ts) := by
  induction ts with
  | nil => exact absurd rfl hne
  | cons t ts ih =>
    have ht := h t mem_cons_self
    by_cases hnil : ts = []
    · subst hnil
      rwa [join_singleton]
    · rw [join_cons t hnil]
      exact ht.append (ih hnil fun u hu => h u (mem_cons_of_mem t hu))

lemma fields_cons (hs : Spaced s) {c : Char} (hc : goIsSpace c = false) :
    ∃ w ws, fields s = w :: ws ∧ fields (c :: s) = (c :: w) :: ws ∧ Spaced (c :: s) := by
  obtain ⟨ws, hne, hws, rfl⟩ := hs
  cases ws with
  | nil => exact absurd rfl hne
  | cons w ws =>
    have hlong : ∀ v ∈ (c :: w) :: ws, IsWord v := by
      intro v hv
      obtain rfl | hv := List.mem_cons.mp hv
      · refine ⟨cons_ne_nil _ _, fun d hd => ?_⟩
        obtain rfl | hd := List.mem_cons.mp hd
        · exact hc
        · exact (hws w mem_cons_self).solid d hd
      · exact hws v (mem_cons_of_mem w hv)
    have hjoin : Text.join ((c :: w) :: ws) = c :: Text.join (w :: ws) := by
      by_cases hnil : ws = []
      · subst hnil
        rw [join_singleton, join_singleton]
      · rw [join_cons _ hnil, join_cons _ hnil, cons_append]
    refine ⟨w, ws, fields_join hws, ?_, (c :: w) :: ws, cons_ne_nil _ _, hlong, hjoin⟩
    rw [← hjoin, fields_join hlong]

lemma concat (hs : Spaced s) {c : Char} (hc : goIsSpace c = false) : Spaced (s ++ [c]) := by
  obtain ⟨ws, hne, hws, rfl⟩ := hs
  obtain ⟨vs, v, rfl⟩ : ∃ vs v, ws = vs ++ [v] :=
    ⟨ws.dropLast, ws.getLast hne, (dropLast_append_getLast hne).symm⟩
  have hv := hws v (mem_append_right vs mem_cons_self)
  refine ⟨vs ++ [v ++ [c]], by simp, fun w hw => ?_, ?_⟩
  · obtain hw | hw := List.mem_append.mp hw
    · exact hws w (mem_append_left _ hw)
    · rw [List.mem_singleton.mp hw]
      refine ⟨by simp, fun d hd => ?_⟩
      obtain hd | hd := List.mem_append.mp hd
      · exact hv.solid d hd
      · rwa [List.mem_singleton.mp hd]
  · exact join_concat vs v c

lemma ends (hs : Spaced s) :
    (∀ c ∈ s.head?, goIsSpace c = false) ∧ ∀ c ∈ s.getLast?, goIsSpace c = false := by
  obtain ⟨ws, hne, hws, rfl⟩ := hs
  induction ws with
  | nil => exact absurd rfl hne
  | cons w ws ih =>
    have hw := hws w mem_cons_self
    obtain ⟨a, front, rfl⟩ := exists_cons_of_ne_nil hw.ne_nil
    by_cases hnil : ws = []
    · subst hnil
      rw [join_singleton]
      exact ⟨fun c hc => hw.solid c (List.mem_of_mem_head? hc),
        fun c hc => hw.solid c (List.mem_of_getLast? hc)⟩
    · have htail := ih hnil fun v hv => hws v (mem_cons_of_mem _ hv)
      rw [join_cons _ hnil]
      refine ⟨fun c hc => hw.solid c ?_, fun c hc => htail.2 c ?_⟩
      · cases hc
        exact mem_cons_self
      · rw [List.getLast?_append, List.getLast?_cons] at hc
        cases hlast : (Text.join ws).getLast? with
        | some d =>
          rw [hlast] at hc
          exact hc
        | none =>
          have hspaced : Spaced (Text.join ws) :=
            ⟨ws, hnil, fun v hv => hws v (mem_cons_of_mem _ hv), rfl⟩
          exact absurd (by rw [List.getLast?_eq_none_iff.mp hlast]; rfl) hspaced.fields_ne_nil

lemma chars (hs : Spaced s) : ∀ c ∈ s, c = ' ' ∨ goIsSpace c = false := by
  obtain ⟨ws, hne, hws, rfl⟩ := hs
  induction ws with
  | nil => exact absurd rfl hne
  | cons w ws ih =>
    have hw := (hws w mem_cons_self).solid
    by_cases hnil : ws = []
    · subst hnil
      rw [join_singleton]
      exact fun c hc => Or.inr (hw c hc)
    · rw [join_cons w hnil]
      intro c hc
      obtain hc | hc := List.mem_append.mp hc
      · exact Or.inr (hw c hc)
      · obtain rfl | hc := List.mem_cons.mp hc
        · exact Or.inl rfl
        · exact ih hnil (fun v hv => hws v (mem_cons_of_mem w hv)) c hc

lemma trimSpace (hs : Spaced s) : Text.trimSpace s = s :=
  trimBy_eq_self hs.ends.1 hs.ends.2

lemma trimSpace_indented (hs : Spaced s) (n : Nat) :
    Text.trimSpace (List.replicate n ' ' ++ s) = s := by
  have hblank : ∀ c ∈ replicate n ' ', goIsSpace c = true := fun c hc => by
    rw [eq_of_mem_replicate hc]
    decide
  rw [Text.trimSpace, trimBy_append_left hblank]
  exact hs.trimSpace

end Spaced

/-- A line without line ends inside and without white space at its end. -/
structure IsLine (line : Text) : Prop where
  single : '\n' ∉ line
  ended : ∃ c, line.getLast? = some c ∧ goIsSpace c = false

lemma IsLine.ne_nil (h : IsLine line) : line ≠ [] := by
  rintro rfl
  obtain ⟨c, hc, -⟩ := h.ended
  cases hc

lemma Spaced.isLine (hs : Spaced s) (n : Nat) : IsLine (List.replicate n ' ' ++ s) := by
  have hne : s ≠ [] := by
    rintro rfl
    exact hs.fields_ne_nil rfl
  refine ⟨fun hmem => ?_, ?_⟩
  · obtain hmem | hmem := List.mem_append.mp hmem
    · exact absurd (eq_of_mem_replicate hmem) (by decide)
    · exact absurd (hs.chars _ hmem) (by decide)
  · rw [List.getLast?_append_of_ne_nil _ hne, List.getLast?_eq_getLast_of_ne_nil hne]
    exact ⟨_, rfl, hs.ends.2 _ (List.getLast?_eq_getLast_of_ne_nil hne)⟩

lemma intercalate_ended (hne : lines ≠ []) (h : ∀ l ∈ lines, IsLine l) :
    ∃ c, (['\n'].intercalate lines).getLast? = some c ∧ goIsSpace c = false := by
  induction lines with
  | nil => exact absurd rfl hne
  | cons line lines ih =>
    by_cases hnil : lines = []
    · subst hnil
      rw [intercalate_singleton]
      exact (h line mem_cons_self).ended
    · obtain ⟨c, hc, hspace⟩ := ih hnil fun l hl => h l (mem_cons_of_mem line hl)
      refine ⟨c, ?_, hspace⟩
      rw [intercalate_cons_of_ne_nil hnil, List.getLast?_append, hc]
      rfl

lemma flatMap_newline (hne : lines ≠ []) :
    lines.flatMap (· ++ ['\n']) = ['\n'].intercalate lines ++ ['\n'] := by
  induction lines with
  | nil => exact absurd rfl hne
  | cons line lines ih =>
    by_cases hnil : lines = []
    · subst hnil
      simp
    · rw [flatMap_cons, ih hnil, intercalate_cons_of_ne_nil hnil]
      simp

lemma split_trimSpace (h : ∀ l ∈ line :: lines, IsLine l)
    (hhead : ∀ c ∈ line.head?, goIsSpace c = false) :
    split '\n' (trimSpace ((line :: lines).flatMap (· ++ ['\n']))) = line :: lines := by
  obtain ⟨c, hlast, hspace⟩ := intercalate_ended (cons_ne_nil line lines) h
  have hfirst : (['\n'].intercalate (line :: lines)).head? = line.head? := by
    have hne := (h line mem_cons_self).ne_nil
    by_cases hnil : lines = []
    · rw [hnil, intercalate_singleton]
    · rw [intercalate_cons_of_ne_nil hnil, append_assoc, List.head?_append_of_ne_nil _ hne]
  have hnewline : ∀ d ∈ ['\n'], goIsSpace d = true := fun d hd => by
    rw [List.mem_singleton.mp hd]
    decide
  have htrim : trimSpace ((line :: lines).flatMap (· ++ ['\n'])) =
      ['\n'].intercalate (line :: lines) := by
    rw [flatMap_newline (cons_ne_nil _ _), trimSpace, trimBy_append_right _ hnewline
      ⟨c, List.mem_of_getLast? hlast, hspace⟩]
    refine trimBy_eq_self (by rwa [hfirst]) fun d hd => ?_
    rw [hlast] at hd
    cases hd
    exact hspace
  rw [htrim, split, splitOn_intercalate '\n' (fun l hl => (h l hl).single) (cons_ne_nil _ _)]

end Text

end Symkernel.Library
