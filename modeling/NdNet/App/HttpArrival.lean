import NdNet.App.HttpRequest
import Mathlib.Data.List.TakeWhile

/-!
# Requests that arrive in pieces

What a pass of the parser understands of the bytes it has, it would have
understood in the same way with more of them behind; with two exceptions.  The
first line leaves its path behind even if the line is not complete, and is read
from its beginning again.  The blank line behind the headers is looked for only
where a header line ends, and missed if it has not arrived.  Besides, the end of
a request looks at all bytes that are there, and the block of the buffer loses
its first byte when it grows, and the NUL behind its bytes when they fill it.
-/

namespace NdNet.Http

open NdNet.Str List

variable {desc : List Char} {sought : List Char} {word : List Char}

section Scanners

variable {p q rest : List Char} {n m : Int}

/-- The text of a buffer that is longer begins with the text there was, and
goes on only if that was the whole buffer. -/
theorem cString_append (data more : List Char) :
    ∃ rest, cString (data ++ more) = cString data ++ rest ∧
      (rest ≠ [] → cString data = data ∧ rest <+: more) := by
  rw [cString, takeWhile_append]
  by_cases whole : (data.takeWhile (· != '\x00')).length = data.length
  · have same : cString data = data :=
      (List.takeWhile_prefix _).eq_of_length whole
    refine ⟨cString more, ?_, fun _ => ⟨same, List.takeWhile_prefix _⟩⟩
    rw [if_pos whole, same]
    rfl
  · refine ⟨[], ?_, fun none => absurd rfl none⟩
    rw [if_neg whole, append_nil]
    rfl

theorem distance_append (p q rest : List Char) :
    distance (p ++ rest) (q ++ rest) = distance p q := by
  rw [distance, distance, length_append, length_append]
  omega

theorem length_cString_le (data : List Char) :
    (cString data).length ≤ data.length :=
  (List.takeWhile_prefix _).length_le

attribute [local simp] Str.beginsLike Str.stricmpN matchMethod parserValid in
theorem parserValid_append (found : parserValid p n = some q) (larger : n ≤ m)
    (rest : List Char) :
    parserValid (p ++ rest) m = some (q ++ rest) := by
  induction p generalizing n m with
  | nil => cases found
  | cons c p induction =>
    rw [parserValid] at found
    rw [cons_append, parserValid]
    by_cases space : c ≤ ' '
    · rw [if_pos space] at found ⊢
      by_cases ends : n - 1 ≤ 0
      · rw [if_pos ends] at found
        cases found
      · rw [if_neg ends] at found
        rw [if_neg (by omega)]
        exact induction found (by omega)
    · rw [if_neg space] at found ⊢
      cases found
      rfl

theorem parserValid_behind (found : parserValid p n = some q) :
    (∃ c rest, q = c :: rest ∧ ' ' < c) ∧ q <:+ p := by
  induction p generalizing n with
  | nil => cases found
  | cons c p induction =>
    rw [parserValid] at found
    by_cases space : c ≤ ' '
    · rw [if_pos space] at found
      by_cases ends : n - 1 ≤ 0
      · rw [if_pos ends] at found
        cases found
      · rw [if_neg ends] at found
        obtain ⟨visible, behind⟩ := induction found
        exact ⟨visible, behind.trans (suffix_cons c p)⟩
    · rw [if_neg space] at found
      cases found
      exact ⟨⟨c, p, rfl, Char.not_le.mp space⟩, suffix_rfl⟩

theorem parserCheckEnd_append (found : parserCheckEnd p n = some q)
    (larger : n ≤ m) (rest : List Char) :
    parserCheckEnd (p ++ rest) m = some (q ++ rest) := by
  induction p generalizing n m with
  | nil => cases found
  | cons a p induction =>
    rw [parserCheckEnd] at found
    rw [cons_append, parserCheckEnd]
    by_cases short : n - 1 < 0
    · rw [if_pos short] at found
      cases found
    rw [if_neg short] at found
    rw [if_neg (by omega)]
    by_cases ends : a = '\r' ∧ p.head? = some '\n'
    · rw [if_pos ends] at found
      obtain ⟨p, rfl⟩ := head?_eq_some_iff.mp ends.2
      cases found
      rw [if_pos ⟨ends.1, rfl⟩]
      rfl
    · rw [if_neg ends] at found
      have visible : p ≠ [] := by
        rintro rfl
        cases found
      rw [if_neg]
      · exact induction found (by omega)
      · rwa [head?_append_of_ne_nil _ visible]

theorem parserCheckEnd_split (found : parserCheckEnd p n = some q) :
    ∃ line, p = line ++ '\r' :: '\n' :: q := by
  induction p generalizing n with
  | nil => cases found
  | cons a p induction =>
    rw [parserCheckEnd] at found
    by_cases short : n - 1 < 0
    · rw [if_pos short] at found
      cases found
    rw [if_neg short] at found
    by_cases ends : a = '\r' ∧ p.head? = some '\n'
    · rw [if_pos ends] at found
      obtain ⟨p, rfl⟩ := head?_eq_some_iff.mp ends.2
      cases found
      exact ⟨[], by rw [ends.1]; rfl⟩
    · rw [if_neg ends] at found
      obtain ⟨line, rfl⟩ := induction found
      exact ⟨a :: line, rfl⟩

theorem parserCheckEnd_suffix (found : parserCheckEnd p n = some q) :
    ∃ front, front ≠ [] ∧ p = front ++ q := by
  obtain ⟨line, rfl⟩ := parserCheckEnd_split found
  exact ⟨line ++ ['\r', '\n'], append_ne_nil_of_right_ne_nil _ (cons_ne_nil _ _),
    (append_assoc line ['\r', '\n'] q).symm⟩

theorem scan_stopped {size : Char → Nat} {stop : Char → Bool} {pending : Nat}
    {c : Char} (found : scan size stop (some n) pending p = some (word, c :: q))
    (stops : stop c = true) (larger : n ≤ m) (rest : List Char) :
    scan size stop (some m) pending (p ++ rest) =
      some (word, c :: q ++ rest) := by
  induction p generalizing n m pending word with
  | nil =>
    cases pending with
    | zero | succ pending => cases found
  | cons d p induction =>
    cases pending with
    | succ pending =>
      obtain ⟨copied, scanned, same⟩ := Option.map_eq_some_iff.mp found
      obtain ⟨rfl, tail⟩ := Prod.mk.inj same
      have reached : scan size stop (some n) pending p =
          some (copied.1, c :: q) := by
        rw [scanned, ← tail]
      rw [cons_append, scan, induction reached larger]
      rfl
    | zero =>
      rw [scan] at found
      rw [cons_append, scan]
      by_cases ends : stop d = true
      · rw [ends, Bool.or_true, if_pos rfl] at found
        rw [ends, Bool.or_true, if_pos rfl]
        cases found
        rfl
      · rw [eq_false_of_ne_true ends, Bool.or_false] at found ⊢
        by_cases spent : n ≤ 0
        · rw [Option.any_some, if_pos (decide_eq_true spent)] at found
          cases found
          exact absurd stops ends
        · have more : ¬ m ≤ 0 := by omega
          rw [Option.any_some,
            if_neg (ne_true_of_eq_false (decide_eq_false spent))] at found
          rw [Option.any_some,
            if_neg (ne_true_of_eq_false (decide_eq_false more))]
          obtain ⟨copied, scanned, same⟩ := Option.map_eq_some_iff.mp found
          obtain ⟨rfl, tail⟩ := Prod.mk.inj same
          have shifted : n - (size d : Int) ≤ m - size d := by omega
          have reached : scan size stop (some (n - size d)) (size d - 1) p =
              some (copied.1, c :: q) := by
            rw [← tail]
            exact scanned
          have extended := induction reached shifted
          rw [Option.map_some, extended]
          rfl

theorem scan_suffix {size : Char → Nat} {stop : Char → Bool}
    {budget : Option Int} {pending : Nat}
    (found : scan size stop budget pending p = some (word, q)) : q <:+ p := by
  induction p generalizing budget pending word with
  | nil =>
    cases pending with
    | zero =>
      cases found
      exact suffix_rfl
    | succ pending => cases found
  | cons d p induction =>
    cases pending with
    | succ pending =>
      obtain ⟨copied, scanned, same⟩ := Option.map_eq_some_iff.mp found
      obtain ⟨-, rfl⟩ := Prod.mk.inj same
      exact (induction scanned).trans
        (suffix_cons d p)
    | zero =>
      rw [scan] at found
      split at found
      · cases found
        exact suffix_rfl
      · obtain ⟨copied, scanned, same⟩ := Option.map_eq_some_iff.mp found
        obtain ⟨-, rfl⟩ := Prod.mk.inj same
        exact (induction scanned).trans
          (suffix_cons d p)

theorem nstrAnsi_append {final : Char} {limit : Nat}
    (found : nstrAnsi final limit p = (word, q)) (more : q ≠ [])
    (rest : List Char) :
    nstrAnsi final limit (p ++ rest) = (word, q ++ rest) := by
  induction p generalizing limit word with
  | nil =>
    cases limit with
    | zero | succ limit =>
      cases found
      exact absurd rfl more
  | cons c p induction =>
    cases limit with
    | zero =>
      cases found
      rfl
    | succ limit =>
      rw [nstrAnsi] at found
      rw [cons_append, nstrAnsi]
      by_cases ends : c = final
      · rw [if_pos ends] at found ⊢
        cases found
        rfl
      · rw [if_neg ends] at found ⊢
        obtain ⟨rfl, tail⟩ := Prod.mk.inj found
        have reached : nstrAnsi final limit p =
            ((nstrAnsi final limit p).1, q) := Prod.ext rfl tail
        rw [induction reached]

theorem strchr_append {c : Char} (found : strchr p c = some q)
    (rest : List Char) : strchr (p ++ rest) c = some (q ++ rest) := by
  rw [strchr, notAtEnd] at found ⊢
  by_cases none : (p.dropWhile (· != c)).isEmpty = true
  · rw [if_pos none] at found
    cases found
  · rw [if_neg none] at found
    cases found
    rw [dropWhile_append, if_neg none, if_neg]
    intro empty
    exact none (List.isEmpty_iff.mpr
      (append_eq_nil_iff.mp (List.isEmpty_iff.mp empty)).1)

theorem beginsLike_append (begins : beginsLike desc p = true) (rest : List Char)
    :
    beginsLike desc (p ++ rest) = true := by
  induction desc generalizing p with
  | nil => rfl
  | cons aid desc induction =>
    cases p with
    | nil => cases begins
    | cons c p =>
      rw [beginsLike, Bool.and_eq_true] at begins
      rw [cons_append, beginsLike, Bool.and_eq_true]
      exact ⟨begins.1, induction begins.2⟩

theorem beginsLike_length
    (begins : beginsLike desc p = true) : desc.length ≤ p.length := by
  induction desc generalizing p with
  | nil => exact Nat.zero_le _
  | cons aid desc induction =>
    cases p with
    | nil => cases begins
    | cons c p =>
      rw [beginsLike, Bool.and_eq_true] at begins
      exact Nat.succ_le_succ (induction begins.2)

theorem beginsLike_of_append (begins : beginsLike desc (p ++ rest) = true)
    (enough : desc.length ≤ p.length) : beginsLike desc p = true := by
  induction desc generalizing p with
  | nil => rfl
  | cons aid desc induction =>
    cases p with
    | nil => cases enough
    | cons c p =>
      rw [cons_append, beginsLike, Bool.and_eq_true] at begins
      rw [beginsLike, Bool.and_eq_true]
      exact ⟨begins.1, induction begins.2 (Nat.le_of_succ_le_succ enough)⟩

theorem stristr_length (found : stristr p desc = some q) :
    q.length ≤ p.length ∧ desc.length ≤ q.length := by
  induction p with
  | nil => cases found
  | cons c p induction =>
    rw [stristr] at found
    by_cases begins : beginsLike desc (c :: p) = true
    · rw [if_pos begins] at found
      cases found
      exact ⟨Nat.le_refl _, beginsLike_length begins⟩
    · rw [if_neg begins] at found
      obtain ⟨shorter, enough⟩ := induction found
      exact ⟨Nat.le_succ_of_le shorter, enough⟩

theorem stristr_append (found : stristr p desc = some q)
    (rest : List Char) : stristr (p ++ rest) desc = some (q ++ rest) := by
  induction p with
  | nil => cases found
  | cons c p induction =>
    rw [stristr] at found
    rw [cons_append, stristr]
    by_cases begins : beginsLike desc (c :: p) = true
    · rw [if_pos begins] at found
      cases found
      rw [if_pos]
      · rfl
      · exact beginsLike_append begins rest
    · rw [if_neg begins] at found
      rw [if_neg]
      · exact induction found
      · intro later
        obtain ⟨shorter, enough⟩ := stristr_length found
        have there : beginsLike desc (c :: p ++ rest) = true := later
        refine begins (beginsLike_of_append there ?_)
        exact Nat.le_succ_of_le (Nat.le_trans enough shorter)

theorem isPrefixOf_append (begins : sought.isPrefixOf p = true)
    (rest : List Char) :
    sought.isPrefixOf (p ++ rest) = true :=
  List.isPrefixOf_iff_prefix.mpr
    ((List.isPrefixOf_iff_prefix.mp begins).trans (prefix_append _ _))

theorem strstr_length (found : strstr sought p = some q) :
    sought.length ≤ q.length ∧ q.length ≤ p.length := by
  induction p with
  | nil =>
    rw [strstr] at found
    by_cases empty : sought.isEmpty = true
    · rw [if_pos empty] at found
      cases found
      rw [List.isEmpty_iff.mp empty]
      exact ⟨Nat.le_refl _, Nat.le_refl _⟩
    · rw [if_neg empty] at found
      cases found
  | cons c p induction =>
    rw [strstr] at found
    by_cases begins : sought.isPrefixOf (c :: p) = true
    · rw [if_pos begins] at found
      cases found
      exact ⟨(List.isPrefixOf_iff_prefix.mp begins).length_le, Nat.le_refl _⟩
    · rw [if_neg begins] at found
      obtain ⟨enough, shorter⟩ := induction found
      exact ⟨enough, Nat.le_succ_of_le shorter⟩

theorem strstr_append (found : strstr sought p = some q) (visible : sought ≠ [])
    (rest : List Char) :
    strstr sought (p ++ rest) = some (q ++ rest) := by
  induction p with
  | nil =>
    rw [strstr, if_neg (by rwa [List.isEmpty_iff])] at found
    cases found
  | cons c p induction =>
    rw [strstr] at found
    rw [cons_append, strstr]
    by_cases begins : sought.isPrefixOf (c :: p) = true
    · rw [if_pos begins] at found
      cases found
      rw [if_pos]
      · rfl
      · exact isPrefixOf_append begins rest
    · rw [if_neg begins] at found
      rw [if_neg]
      · exact induction found
      · intro later
        obtain ⟨enough, shorter⟩ := strstr_length found
        refine begins (List.isPrefixOf_iff_prefix.mpr ?_)
        exact prefix_of_prefix_length_le
          (List.isPrefixOf_iff_prefix.mp later)
          (prefix_append (c :: p) rest)
          (Nat.le_succ_of_le (Nat.le_trans enough shorter))

end Scanners

section Methods

variable {text desc rest : List Char} {n : Nat}

theorem stricmpN_append (enough : n ≤ text.length) (positive : 0 < n)
    (desc rest : List Char) :
    stricmpN (text ++ rest) desc n = stricmpN text desc n := by
  induction text generalizing desc n with
  | nil =>
    rw [length_nil] at enough
    omega
  | cons a text induction =>
    rw [cons_append, stricmpN, stricmpN]
    by_cases last : n ≤ 1
    · rw [if_pos last, if_pos last]
    · rw [length_cons] at enough
      rw [induction (by omega) (by omega)]

theorem length_of_stricmpN (same : stricmpN text desc n = 0)
    (long : n ≤ desc.length) (letters : ∀ c ∈ desc, 0 < c.toNat) :
    n ≤ text.length := by
  induction text generalizing desc n with
  | nil =>
    cases desc with
    | nil => exact long
    | cons b desc =>
      have letter := letters b mem_cons_self
      rw [stricmpN, headD_cons] at same
      omega
  | cons a text induction =>
    rw [length_cons]
    by_cases last : n ≤ 1
    · omega
    rw [stricmpN] at same
    split at same
    · rename_i differs
      exact absurd same differs.1
    · have shorter := induction same
        (by rw [length_tail]; omega)
        fun c member => letters c (mem_of_mem_tail member)
      omega

theorem stricmpN_slash (slash : '/' ∈ text.take n)
    (letters : ∀ c ∈ desc, c ≠ '/') : stricmpN text desc n ≠ 0 := by
  induction text generalizing desc n with
  | nil => cases take_nil ▸ slash
  | cons a text induction =>
    have other : desc.headD '\x00' ≠ '/' := by
      cases desc with
      | nil => decide
      | cons b desc => exact letters b mem_cons_self
    cases n with
    | zero => cases slash
    | succ n =>
      rw [stricmpN]
      split
      · rename_i differs
        exact differs.1
      rename_i alike
      have differs : a ≠ '/' := by
        rintro rfl
        have letterless : swapped '/' = none := by decide
        refine alike ⟨?_, fun same => nomatch letterless ▸ same⟩
        intro equal
        refine other (Char.toNat_inj.mp ?_)
        omega
      have later : '/' ∈ text.take n := by
        rcases mem_cons.mp slash with same | later
        · exact absurd same.symm differs
        · exact later
      have more : ¬ n + 1 ≤ 1 := by
        intro last
        obtain rfl : n = 0 := by omega
        cases later
      rw [if_neg more]
      exact induction later fun c member =>
        letters c (mem_of_mem_tail member)

/-- Whether a method stands in front of a slash can be seen without what comes
behind it. -/
theorem stricmpN_append_iff (slash : '/' ∈ text) (positive : 0 < n)
    (letters : ∀ c ∈ desc, c ≠ '/') :
    stricmpN (text ++ rest) desc n = 0 ↔ stricmpN text desc n = 0 := by
  by_cases enough : n ≤ text.length
  · rw [stricmpN_append enough positive]
  · have within : '/' ∈ text.take n := by
      rwa [take_of_length_le (by omega)]
    have still : '/' ∈ (text ++ rest).take n := by
      rw [take_append]
      exact mem_append_left _ within
    exact iff_of_false (stricmpN_slash still letters)
      (stricmpN_slash within letters)

theorem matchMethod_append (slash : '/' ∈ text) (rest : List Char) :
    matchMethod (text ++ rest) =
      ((matchMethod text).1, (matchMethod text).2 ++ rest) := by
  rw [matchMethod, matchMethod]
  by_cases post : stricmpN text "POST".toList 4 = 0
  · have long := length_of_stricmpN post (by decide) (by decide)
    rw [if_pos post, if_pos ((stricmpN_append_iff slash (by decide)
      (by decide)).mpr post), drop_append_of_le_length long]
  · rw [if_neg post, if_neg (mt (stricmpN_append_iff slash (by decide)
      (by decide)).mp post)]
    by_cases get : stricmpN text "GET".toList 3 = 0
    · have long := length_of_stricmpN get (by decide) (by decide)
      rw [if_pos get, if_pos ((stricmpN_append_iff slash (by decide)
        (by decide)).mpr get), drop_append_of_le_length long]
    · rw [if_neg get, if_neg (mt (stricmpN_append_iff slash (by decide)
        (by decide)).mp get)]

theorem matchMethod_some {action : Action}
    (found : (matchMethod text).1 = some action) (rest : List Char) :
    (matchMethod (text ++ rest)).1.isSome = true := by
  rw [matchMethod] at found ⊢
  by_cases later : stricmpN (text ++ rest) "POST".toList 4 = 0
  · rw [if_pos later]
    rfl
  rw [if_neg later]
  by_cases post : stricmpN text "POST".toList 4 = 0
  · have long := length_of_stricmpN post (by decide) (by decide)
    rw [stricmpN_append long (by decide)] at later
    exact absurd post later
  · rw [if_neg post] at found
    by_cases get : stricmpN text "GET".toList 3 = 0
    · have long := length_of_stricmpN get (by decide) (by decide)
      rw [if_pos (by rwa [stricmpN_append long (by decide)])]
      rfl
    · rw [if_neg get] at found
      cases found

theorem matchMethod_suffix (text : List Char) :
    (matchMethod text).2 <:+ text := by
  rw [matchMethod]
  split
  · exact drop_suffix _ _
  · split
    · exact drop_suffix _ _
    · exact suffix_rfl

end Methods

section Lines

variable {data more rest buf p q : List Char}

theorem pathText_append (found : pathText p = some (buf, q)) (visible : q ≠ [])
    (rest : List Char) : pathText (p ++ rest) = some (buf, q ++ rest) := by
  rw [pathText, copyTo] at found
  rw [pathText, copyTo]
  cases p with
  | nil =>
    cases found
    exact absurd rfl visible
  | cons c p =>
    rw [cons_append, head?_cons]
    rw [head?_cons] at found
    by_cases empty : some c = some ' '
    · rw [if_pos empty] at found ⊢
      cases found
      rfl
    · rw [if_neg empty] at found ⊢
      by_cases long : 1024 ≤ (nstrAnsi ' ' 1024 (c :: p)).1.length
      · rw [if_pos long] at found
        cases found
      · rw [if_neg long] at found
        have same := Option.some.inj found
        have longer := nstrAnsi_append same visible rest
        rw [cons_append] at longer
        rw [same] at long
        rw [longer, if_neg long]

theorem pathText_length (found : pathText p = some (buf, q)) :
    q.length ≤ p.length := by
  rw [pathText, copyTo] at found
  split at found
  · cases found
    exact Nat.le_refl _
  · split at found
    · cases found
    · have shorter := nstrAnsi_length ' ' 1024 p
      rwa [Option.some.inj found] at shorter

/-- A first line that is complete is read in the same way whatever follows. -/
theorem firstLine_append {action : Option Action}
    (found : firstLine data = some (action, buf, some p))
    (longer : cString (data ++ more) = cString data ++ rest) :
    firstLine (data ++ more) = some (action, buf, some (p ++ rest)) := by
  rw [firstLine] at found ⊢
  cases slash : strchr (matchMethod (cString data)).2 '/' with
  | none =>
    rw [slash] at found
    cases found
  | some q =>
    rw [slash] at found
    have member : '/' ∈ cString data := by
      by_contra missing
      have absent : '/' ∉ (matchMethod (cString data)).2 :=
        fun inside => missing ((matchMethod_suffix _).subset inside)
      rw [strchr, notAtEnd, if_pos] at slash
      · cases slash
      · rw [List.isEmpty_iff, dropWhile_eq_nil_iff]
        intro c inside
        exact bne_iff_ne.mpr fun same => absent (same ▸ inside)
    rw [longer, matchMethod_append member, strchr_append slash]
    dsimp only at found ⊢
    have tail : (q ++ rest).tail = q.tail ++ rest :=
      tail_append_of_ne_nil (strchr_length slash).2
    rw [tail]
    cases path : pathText q.tail with
    | none =>
      rw [path] at found
      cases found
    | some pair =>
      obtain ⟨buf', r⟩ := pair
      rw [path] at found
      dsimp only at found
      cases http : stristr r "HTTP".toList with
      | none =>
        rw [http] at found
        cases found
      | some h =>
        rw [http] at found
        dsimp only at found
        obtain ⟨enough, room⟩ := stristr_length http
        have visible : r ≠ [] := by
          rintro rfl
          cases http
        have four : 4 ≤ h.length := room
        have ends := congrArg (fun line => line.2.2)
          (Option.some.inj found)
        have sizes : ((data.length : Int) -
            distance (cString data) (h.drop 4)) ≤
            ((data ++ more).length : Int) -
              distance (cString data) (h.drop 4) := by
          rw [length_append]
          omega
        rw [pathText_append path visible]
        dsimp only
        rw [stristr_append http]
        dsimp only
        rw [drop_append_of_le_length four, distance_append,
          parserCheckEnd_append ends sizes]
        rw [show parserCheckEnd _ _ = some p from ends] at found
        cases found
        rfl

theorem firstLine_length {action : Option Action}
    (found : firstLine data = some (action, buf, some p)) :
    p.length < (cString data).length := by
  rw [firstLine] at found
  cases slash : strchr (matchMethod (cString data)).2 '/' with
  | none =>
    rw [slash] at found
    cases found
  | some q =>
    rw [slash] at found
    dsimp only at found
    cases path : pathText q.tail with
    | none =>
      rw [path] at found
      cases found
    | some pair =>
      obtain ⟨buf', r⟩ := pair
      rw [path] at found
      dsimp only at found
      cases http : stristr r "HTTP".toList with
      | none =>
        rw [http] at found
        cases found
      | some h =>
        rw [http] at found
        have ends := congrArg (fun line => line.2.2)
          (Option.some.inj found)
        have first := (matchMethod_suffix (cString data)).length_le
        have second := (strchr_length slash).1
        have third := pathText_length path
        have fourth := (stristr_length http).1
        obtain ⟨line, visible, split⟩ := parserCheckEnd_suffix ends
        have fifth := congrArg length split
        have sixth := length_pos_iff.mpr visible
        rw [length_tail] at third
        rw [length_drop, length_append] at fifth
        omega

theorem firstLine_method {line : Option Action × List Char × Option (List Char)}
    (found : firstLine data = some line) :
    line.1 = (matchMethod (cString data)).1 := by
  rw [firstLine] at found
  split at found
  · cases found
    rfl
  · split at found
    · cases found
    · split at found <;> cases found <;> rfl

theorem headerLine_append {code : CodeType} {node : HttpHeaderNode}
    (found : headerLine code data = some (some (node, p)))
    (longer : cString (data ++ more) = cString data ++ rest) :
    headerLine code (data ++ more) = some (some (node, p ++ rest)) := by
  have sizes : ∀ place, ((data.length : Int) - distance (cString data) place) ≤
      ((data ++ more).length : Int) - distance (cString data) place := by
    intro place
    rw [length_append]
    omega
  have whole : (data.length : Int) ≤ ((data ++ more).length : Int) := by
    rw [length_append]
    omega
  rw [headerLine] at found ⊢
  cases begins : parserValid (cString data) data.length with
  | none =>
    rw [begins] at found
    cases found
  | some first =>
    rw [begins] at found
    rw [longer, parserValid_append begins whole]
    dsimp only at found ⊢
    cases named : nstrEnd code first ':'
        (data.length - distance (cString data) first) with
    | none =>
      rw [named] at found
      cases found
    | some pair =>
      obtain ⟨hdrName, colon⟩ := pair
      rw [named] at found
      dsimp only at found
      by_cases long : 1024 ≤ hdrName.length
      · rw [if_pos long] at found
        cases found
      rw [if_neg long] at found
      by_cases missing : colon.head? ≠ some ':'
      · rw [if_pos missing] at found
        cases found
      obtain ⟨behind, rfl⟩ :=
        head?_eq_some_iff.mp (not_not.mp missing)
      rw [distance_append, show nstrEnd code (first ++ rest) ':' _ =
        some (hdrName, ':' :: behind ++ rest) from
        scan_stopped named rfl (sizes first) rest]
      dsimp only
      rw [if_neg long, cons_append, head?_cons,
        if_neg (not_not.mpr rfl), tail_cons, distance_append]
      rw [tail_cons] at found
      cases valued : parserValid behind
          (data.length - distance (cString data) behind) with
      | none =>
        rw [valued] at found
        cases found
      | some st =>
        rw [valued] at found
        rw [parserValid_append valued (sizes behind)]
        dsimp only at found ⊢
        rw [distance_append]
        cases ended : parserCheckEnd st
            (data.length - distance (cString data) st) with
        | none =>
          rw [ended] at found
          cases found
        | some last =>
          rw [ended] at found
          rw [parserCheckEnd_append ended (sizes st)]
          dsimp only at found ⊢
          rw [distance_append]
          by_cases large : 1024 ≤ distance st last - 2
          · rw [if_pos large] at found
            cases found
          · rw [if_neg large] at found ⊢
            cases found
            have within : distance st p - 2 ≤ st.length := by
              rw [distance]
              omega
            rw [take_append_of_le_length within]

theorem headerLine_suffix {code : CodeType} {node : HttpHeaderNode}
    (found : headerLine code data = some (some (node, p))) :
    ∃ front, front ≠ [] ∧ cString data = front ++ p := by
  rw [headerLine] at found
  cases begins : parserValid (cString data) data.length with
  | none =>
    rw [begins] at found
    cases found
  | some first =>
    rw [begins] at found
    dsimp only at found
    cases named : nstrEnd code first ':'
        (data.length - distance (cString data) first) with
    | none =>
      rw [named] at found
      cases found
    | some pair =>
      obtain ⟨hdrName, colon⟩ := pair
      rw [named] at found
      dsimp only at found
      split at found
      · cases found
      split at found
      · cases found
      split at found
      · cases found
      rename_i st valued
      split at found
      · cases found
      rename_i last ended
      split at found
      · cases found
      cases found
      obtain ⟨line, visible, rfl⟩ := parserCheckEnd_suffix ended
      obtain ⟨front, split⟩ :=
        ((parserValid_behind valued).2.trans (tail_suffix colon)).trans
          ((scan_suffix named).trans (parserValid_behind begins).2)
      refine ⟨front ++ line, ?_, ?_⟩
      · exact append_ne_nil_of_right_ne_nil front visible
      · rw [← split, append_assoc]

theorem headerLine_return (code : CodeType) :
    headerLine code ['\r'] = some none := by
  rfl

end Lines

variable {full : Bool}

section Stages

variable {code : CodeType} {s t : HttpRequest} {ret : Int}
  {more rest p : List Char}

def HttpParser.extend {δ : Type} (s : HttpParser δ) (more : List Char) :
    HttpParser δ :=
  { s with bodyBuf := s.bodyBuf ++ more }

theorem HttpParser.extend_nil (s : HttpRequest) : s.extend [] = s := by
  rw [HttpParser.extend, append_nil]

theorem HttpParser.extend_extend (s : HttpRequest) (more rest : List Char) :
    (s.extend more).extend rest = s.extend (more ++ rest) := by
  rw [HttpParser.extend, HttpParser.extend, HttpParser.extend, append_assoc]

theorem subData_extend
    (longer : cString (s.bodyBuf ++ more) = cString s.bodyBuf ++ rest)
    (p : List Char) :
    subData (p ++ rest) (s.extend more) =
      ((subData p s).1, (subData p s).2.extend more) := by
  have within : distance (cString s.bodyBuf) p ≤ s.bodyBuf.length := by
    have := length_cString_le s.bodyBuf
    rw [distance]
    omega
  rw [subData, subData, HttpParser.extend, longer, distance_append,
    drop_append_of_le_length within]
  rfl

theorem subData_length (shorter : p.length < (cString s.bodyBuf).length) :
    0 < (subData p s).1 ∧
      (subData p s).2.bodyBuf.length < s.bodyBuf.length := by
  have within := length_cString_le s.bodyBuf
  rw [subData, distance, length_drop]
  omega

theorem pushPath_extend (s : HttpRequest) (buf more : List Char) :
    pushPath (s.extend more) buf =
      (pushPath s buf).map (HttpParser.extend · more) := by
  rw [pushPath, pushPath]
  split
  · rfl
  · rw [Option.map_map]
    rfl

theorem pushPath_frame {buf : List Char} (pushed : pushPath s buf = some t) :
    t.bodyBuf = s.bodyBuf ∧ t.parseStat = s.parseStat ∧
      t.parseError = s.parseError := by
  rw [pushPath] at pushed
  split at pushed
  · cases pushed
    exact ⟨rfl, rfl, rfl⟩
  · obtain ⟨pair, -, rfl⟩ := Option.map_eq_some_iff.mp pushed
    exact ⟨rfl, rfl, rfl⟩

theorem parseProtocol_read (result : parseProtocol s = some (ret, t))
    (progress : 0 < ret) :
    t.parseStat = 1 ∧ t.parseError = s.parseError ∧
      t.bodyBuf.length < s.bodyBuf.length ∧
      ∀ more, parseProtocol (s.extend more) = some (ret, t.extend more) := by
  rw [parseProtocol] at result
  cases scanned : firstLine s.bodyBuf with
  | none =>
    rw [scanned] at result
    cases result
  | some line =>
    obtain ⟨action, buf, behind⟩ := line
    rw [scanned] at result
    obtain ⟨u, pushed, same⟩ := Option.map_eq_some_iff.mp result
    cases behind with
    | none =>
      cases same
      cases progress
    | some p =>
      obtain ⟨rfl, rfl⟩ := Prod.mk.inj same
      obtain ⟨body, -, error⟩ := pushPath_frame pushed
      have shorter : p.length < (cString u.bodyBuf).length := by
        rw [body]
        exact firstLine_length scanned
      refine ⟨rfl, error, ?_, ?_⟩
      · rw [← show u.bodyBuf = s.bodyBuf from body]
        exact (subData_length shorter).2
      · intro more
        obtain ⟨rest, longer, -⟩ := cString_append s.bodyBuf more
        have scannedLater : firstLine (s.extend more).bodyBuf =
            some (action, buf, some (p ++ rest)) :=
          firstLine_append scanned longer
        have same : ({ s.extend more with
            action := action.getD (s.extend more).action } : HttpRequest) =
            HttpParser.extend { s with action := action.getD s.action }
              more := rfl
        have took : subData (p ++ rest) (u.extend more) = _ :=
          subData_extend (by rw [body]; exact longer) p
        rw [parseProtocol, scannedLater]
        dsimp only
        rw [same, pushPath_extend, pushed, Option.map_some,
          Option.map_some, took]
        rfl

def pathBegun (data : List Char) : Bool :=
  (firstLine data).any fun line => !line.2.1.isEmpty

/-- A first line that is not complete is read again later; if there has been
no path in it, nothing is seen of the first time. -/
theorem parseProtocol_stalled (result : parseProtocol s = some (ret, t))
    (stalled : ¬ 0 < ret) :
    t.parseStat = s.parseStat ∧ t.bodyBuf = s.bodyBuf ∧
      (pathBegun s.bodyBuf = false → ∀ more,
        parseProtocol (t.extend more) = parseProtocol (s.extend more)) := by
  rw [parseProtocol] at result
  cases scanned : firstLine s.bodyBuf with
  | none =>
    rw [scanned] at result
    cases result
  | some line =>
    obtain ⟨action, buf, behind⟩ := line
    rw [scanned] at result
    obtain ⟨u, pushed, same⟩ := Option.map_eq_some_iff.mp result
    obtain ⟨body, stat, -⟩ := pushPath_frame pushed
    cases behind with
    | some p =>
      obtain ⟨rfl, -⟩ := Prod.mk.inj same
      refine absurd (subData_length ?_).1 stalled
      rw [body]
      exact firstLine_length scanned
    | none =>
      obtain ⟨-, rfl⟩ := Prod.mk.inj same
      refine ⟨stat, body, fun clean more => ?_⟩
      have empty : buf = [] := by
        rw [pathBegun, scanned] at clean
        cases buf with
        | nil => rfl
        | cons c buf => cases clean
      rw [pushPath, if_pos empty] at pushed
      cases pushed
      rw [parseProtocol, parseProtocol]
      have same : ({ s with action := action.getD s.action } :
          HttpRequest).extend more = { s.extend more with
            action := action.getD s.action } := rfl
      rw [same]
      cases later : firstLine (s.extend more).bodyBuf with
      | none => rfl
      | some line =>
        have method := firstLine_method later
        obtain ⟨found, buf, behind⟩ := line
        dsimp only
        have kept : found.getD (action.getD s.action) =
            found.getD s.action := by
          cases action with
          | none => rfl
          | some action =>
            obtain ⟨rest, longer, -⟩ := cString_append s.bodyBuf more
            have before := firstLine_method scanned
            have again := matchMethod_some before.symm rest
            rw [← longer] at again
            rw [show found = _ from method]
            obtain ⟨other, present⟩ :=
              Option.isSome_iff_exists.mp again
            rw [show (s.extend more).bodyBuf = s.bodyBuf ++ more
              from rfl, present]
            rfl
        rw [kept]
        rfl

/-- The content type does not make anyone look at the body. -/
def formless (header : List HttpHeaderNode) : Bool :=
  match contentOf header with
  | .missing => true
  | .other => true
  | _ => false

/-- The end of the request will be the same with more bytes behind. -/
def Blind (s : HttpRequest) : Prop :=
  s.action ≠ .post ∨ formless s.header = true ∧ s.bodyBuf ≠ []

theorem onParseEnd_extend (blind : Blind s) (more : List Char) :
    onParseEnd code false (s.extend more) =
      (onParseEnd code false s).map (HttpParser.extend · more) := by
  have cookies : ∀ posted : Option HttpRequest,
      ((posted.map (HttpParser.extend · more)).bind fun s =>
        (parseCookies code s.header s.derived.cookies).map fun cookies =>
          { s with derived := { s.derived with cookies } }) =
      (posted.bind fun s =>
        (parseCookies code s.header s.derived.cookies).map fun cookies =>
          { s with derived := { s.derived with cookies } }).map
        (HttpParser.extend · more) := by
    intro posted
    cases posted with
    | none => rfl
    | some s =>
      rw [Option.map_some, Option.bind_some, Option.bind_some, Option.map_map]
      rfl
  rw [onParseEnd, onParseEnd, ← cookies]
  congr 1
  rcases blind with other | ⟨without, visible⟩
  · rw [if_neg fun both => other both.1, if_neg fun both => other both.1]
    rfl
  by_cases post : s.action = .post
  · have still : (s.extend more).bodyBuf ≠ [] :=
      fun empty => visible (append_eq_nil_iff.mp empty).1
    rw [if_pos ⟨post, still⟩, if_pos ⟨post, visible⟩, postBodyToJson,
      postBodyToJson, show (s.extend more).header = s.header from rfl]
    rw [formless] at without
    cases content : contentOf s.header with
    | missing | other => rfl
    | xForm | multipart headerText =>
      rw [content] at without
      cases without
  · rw [if_neg fun both => post both.1, if_neg fun both => post both.1]
    rfl

/-- Two requests that differ in what has been taken out of them at most. -/
def Alike (s t : HttpRequest) : Prop :=
  t.parseStat = s.parseStat ∧ t.bodyBuf = s.bodyBuf ∧ t.header = s.header ∧
    t.action = s.action

theorem Alike.trans {u : HttpRequest} (first : Alike s t) (second : Alike t u) :
    Alike s u :=
  ⟨second.1.trans first.1, second.2.1.trans first.2.1,
    second.2.2.1.trans first.2.2.1, second.2.2.2.trans first.2.2.2⟩

theorem parseOnePart_alike {part : List Char}
    (result : parseOnePart code part s = some t) : Alike s t := by
  obtain ⟨tmp, -, result⟩ := Option.bind_eq_some_iff.mp result
  split at result
  · cases result
    exact ⟨rfl, rfl, rfl, rfl⟩
  split at result
  · cases result
    exact ⟨rfl, rfl, rfl, rfl⟩
  obtain ⟨⟨name, behind⟩, -, result⟩ := Option.bind_eq_some_iff.mp result
  dsimp only at result
  split at result
  · split at result <;> cases result
    exact ⟨rfl, rfl, rfl, rfl⟩
  · obtain ⟨⟨buf, behind⟩, -, result⟩ := Option.bind_eq_some_iff.mp result
    cases result
    exact ⟨rfl, rfl, rfl, rfl⟩

theorem parseParts_alike {body boundary : List Char} {bodySize : Int}
    {fuel : Nat}
    (result : parseParts code full body boundary bodySize fuel p s = some t) :
    Alike s t := by
  induction fuel generalizing p s with
  | zero => cases result
  | succ fuel induction =>
    rw [parseParts] at result
    split at result
    · cases result
      exact ⟨rfl, rfl, rfl, rfl⟩
    split at result
    · split at result <;> cases result
      exact ⟨rfl, rfl, rfl, rfl⟩
    dsimp only at result
    split at result
    · split at result <;> cases result
      exact ⟨rfl, rfl, rfl, rfl⟩
    · split at result
      all_goals
        split at result
        · cases result
        · obtain ⟨between, part, rest⟩ :=
            Option.bind_eq_some_iff.mp result
          exact (parseOnePart_alike part).trans (induction rest)

theorem postBodyToJson_alike
    (result : postBodyToJson code full s = some t) : Alike s t := by
  rw [postBodyToJson] at result
  split at result
  · cases result
    exact ⟨rfl, rfl, rfl, rfl⟩
  · rw [parseMultipart] at result
    split at result
    · cases result
      exact ⟨rfl, rfl, rfl, rfl⟩
    · split at result
      · cases result
        exact ⟨rfl, rfl, rfl, rfl⟩
      · exact parseParts_alike result
  · obtain ⟨valid, -, result⟩ := Option.bind_eq_some_iff.mp result
    obtain ⟨nodes, -, result⟩ := Option.bind_eq_some_iff.mp result
    cases result
    exact ⟨rfl, rfl, rfl, rfl⟩
  · cases result
    exact ⟨rfl, rfl, rfl, rfl⟩

theorem onParseEnd_alike
    (result : onParseEnd code full s = some t) : Alike s t := by
  obtain ⟨between, posted, cookies⟩ := Option.bind_eq_some_iff.mp result
  obtain ⟨found, -, rfl⟩ := Option.map_eq_some_iff.mp cookies
  change Alike s between
  split at posted
  · exact postBodyToJson_alike posted
  · cases posted
    exact ⟨rfl, rfl, rfl, rfl⟩

theorem formsOf_room {fuel : Nat} {forms : List HttpHeaderNode × Bool}
    (result : formsOf full fuel p = some forms) :
    formsOf false fuel p = some forms := by
  induction fuel generalizing p forms with
  | zero => cases result
  | succ fuel induction =>
    rw [formsOf] at result ⊢
    dsimp only at result ⊢
    rw [if_neg fun both => Bool.false_ne_true both.2]
    split at result
    · cases result
    split at result
    · rename_i other
      rw [if_pos other]
      exact result
    · rename_i equals
      rw [if_neg equals]
      split at result
      · rename_i ends
        rw [if_pos ends]
        split at result
        · cases result
        · exact result
      · rename_i more
        rw [if_neg more]
        obtain ⟨later, found, same⟩ := Option.map_eq_some_iff.mp result
        rw [induction found, Option.map_some, same]

theorem parseParts_room {body boundary : List Char} {bodySize : Int}
    {fuel : Nat}
    (result : parseParts code full body boundary bodySize fuel p s = some t) :
    parseParts code false body boundary bodySize fuel p s = some t := by
  induction fuel generalizing p s with
  | zero => cases result
  | succ fuel induction =>
    rw [parseParts] at result ⊢
    by_cases beyond : bodySize ≤ distance body p
    · rw [if_pos beyond] at result ⊢
      exact result
    rw [if_neg beyond] at result ⊢
    cases first : strstr boundary p with
    | none =>
      rw [first] at result
      cases full with
      | false => exact result
      | true => cases result
    | some start =>
      rw [first] at result
      dsimp only at result ⊢
      cases next : strstr boundary (start.drop boundary.length) with
      | none =>
        rw [next] at result
        cases full with
        | false => exact result
        | true => cases result
      | some last =>
        rw [next] at result
        dsimp only at result ⊢
        generalize (if ['\r', '\n'].isSuffixOf (boundary ++
          (start.drop boundary.length).take
            (distance (start.drop boundary.length) last)) = true
          then 2 else 0) = back at result ⊢
        split at result
        · cases result
        · rename_i whole
          obtain ⟨between, part, rest⟩ :=
            Option.bind_eq_some_iff.mp result
          rw [if_neg whole, part, Option.bind_some]
          exact induction rest

/-- What is read in a full buffer is read with room for a NUL. -/
theorem onParseEnd_room (result : onParseEnd code full s = some t)
    :
    onParseEnd code false s = some t := by
  obtain ⟨between, posted, cookies⟩ := Option.bind_eq_some_iff.mp result
  refine Option.bind_eq_some_iff.mpr ⟨between, ?_, cookies⟩
  split at posted
  · rename_i post
    rw [if_pos post]
    rw [postBodyToJson] at posted ⊢
    cases content : contentOf s.header with
    | missing | other =>
      rw [content] at posted
      exact posted
    | multipart headerText =>
      rw [content] at posted
      dsimp only at posted ⊢
      rw [parseMultipart] at posted ⊢
      split at posted
      · rename_i nothing
        rw [if_pos nothing]
        exact posted
      · rename_i some_
        rw [if_neg some_]
        cases key : stristr headerText "boundary=".toList with
        | none =>
          rw [key] at posted
          exact posted
        | some pbound =>
          rw [key] at posted
          exact parseParts_room posted
    | xForm =>
      rw [content] at posted
      obtain ⟨p, valid, read⟩ := Option.bind_eq_some_iff.mp posted
      obtain ⟨forms, found, same⟩ := Option.bind_eq_some_iff.mp read
      exact Option.bind_eq_some_iff.mpr ⟨p, valid,
        Option.bind_eq_some_iff.mpr ⟨forms, formsOf_room found, same⟩⟩
  · rename_i other
    rw [if_neg other]
    exact posted

theorem setParseEnd_room
    (result : setParseEnd (requestVirtual code full) s = some t) :
    setParseEnd (requestVirtual code false) s = some t := by
  rw [setParseEnd] at result ⊢
  split at result
  · rename_i waits
    rw [if_pos waits]
    exact onParseEnd_room result
  · rename_i ended
    rw [if_neg ended]
    exact result

theorem parseData_room {read : Int × HttpRequest}
    (result : parseData code (requestVirtual code full) s = some read) :
    parseData code (requestVirtual code false) s = some read := by
  rw [parseData] at result ⊢
  split at result
  · rename_i line
    rw [if_pos line]
    change (if _ then _ else _) = _ at result
    split at result
    · cases result
    · exact result
  rename_i line
  rw [if_neg line]
  split at result
  · rename_i header
    rw [if_pos header]
    rw [parseHeader] at result ⊢
    split at result
    · cases result
    · exact result
    split at result
    · rename_i blank
      rw [if_pos blank]
      obtain ⟨u, ended, same⟩ := Option.map_eq_some_iff.mp result
      rw [headerEnd] at ended
      refine Option.map_eq_some_iff.mpr ⟨u, ?_, same⟩
      rw [headerEnd]
      dsimp only at ended ⊢
      split at ended
      · rename_i get
        rw [if_pos get]
        exact setParseEnd_room ended
      · rename_i other
        rw [if_neg other]
        exact ended
    · rename_i goesOn
      rw [if_neg goesOn]
      exact result
  rename_i header
  rw [if_neg header]
  split at result
  · rename_i body
    rw [if_pos body]
    split at result
    · rename_i get
      rw [if_pos get]
      obtain ⟨u, ended, same⟩ := Option.map_eq_some_iff.mp result
      exact Option.map_eq_some_iff.mpr ⟨u, setParseEnd_room ended, same⟩
    · rename_i other
      rw [if_neg other]
      rw [parseBody] at result ⊢
      dsimp only at result ⊢
      split at result
      · rename_i free
        rw [if_pos free]
        split at result
        · exact result
        · obtain ⟨u, ended, same⟩ := Option.map_eq_some_iff.mp result
          exact Option.map_eq_some_iff.mpr ⟨u, setParseEnd_room ended, same⟩
      · rename_i sized
        rw [if_neg sized]
        split at result
        · rename_i whole
          rw [if_pos whole]
          obtain ⟨u, ended, same⟩ := Option.map_eq_some_iff.mp result
          exact Option.map_eq_some_iff.mpr ⟨u, setParseEnd_room ended, same⟩
        · rename_i short
          rw [if_neg short]
          exact result
  · rename_i done
    rw [if_neg done]
    exact result

theorem setParseEnd_alike
    (result : setParseEnd (requestVirtual code false) s = some t) :
    Alike { s with parseStat := 3 } t := by
  rw [setParseEnd] at result
  split at result
  · exact onParseEnd_alike result
  · rename_i three
    cases result
    exact ⟨not_not.mp three, rfl, rfl, rfl⟩

theorem setParseEnd_extend (blind : Blind s) (more : List Char) :
    setParseEnd (requestVirtual code false) (s.extend more) =
      (setParseEnd (requestVirtual code false) s).map
        (HttpParser.extend · more) := by
  rw [setParseEnd, setParseEnd]
  by_cases three : s.parseStat ≠ 3
  · rw [if_pos three, if_pos (show (s.extend more).parseStat ≠ 3 from three)]
    exact onParseEnd_extend (s := { s with parseStat := 3 }) blind more
  · rw [if_neg three, if_neg (show ¬ (s.extend more).parseStat ≠ 3 from three)]
    rfl

theorem setParseEnd_later
    (ended : setParseEnd (requestVirtual code false) s = some t)
    (blind : Blind t) (more : List Char) :
    setParseEnd (requestVirtual code false) (s.extend more) =
      some (t.extend more) := by
  obtain ⟨-, body, header, action⟩ := setParseEnd_alike ended
  have before : Blind s := by
    rw [Blind, header, action, body] at blind
    exact blind
  rw [setParseEnd_extend before, ended]
  rfl

theorem headerEnd_extend (s : HttpRequest) (more : List Char) :
    headerEnd (requestVirtual code false) (s.extend more) =
      (headerEnd (requestVirtual code false) s).map
        (HttpParser.extend · more) := by
  rw [headerEnd, headerEnd]
  by_cases get : s.action = .get
  · rw [if_pos get, if_pos (show (s.extend more).action = .get from get)]
    refine setParseEnd_extend (s := { s with
      parseStat := 2
      parseProgress := if findBodySize s.header = 0 then 3
        else s.parseProgress }) (.inl ?_) more
    rw [show s.action = .get from get]
    decide
  · rw [if_neg get, if_neg (show ¬ (s.extend more).action = .get from get)]
    rfl

theorem headerEnd_alike
    (result : headerEnd (requestVirtual code false) s = some t) :
    t.bodyBuf = s.bodyBuf ∧ (t.parseStat = 3 ∨
      t.parseStat = 2 ∧ t.action ≠ .get ∧ t.parseError = s.parseError) := by
  change (if s.action = .get then _ else _) = _ at result
  split at result
  · obtain ⟨stat, body, -, -⟩ := setParseEnd_alike result
    exact ⟨body, .inl stat⟩
  · rename_i other
    cases result
    exact ⟨rfl, .inr ⟨rfl, other, rfl⟩⟩

/-- Where a blank line can begin, nothing of one comes. -/
def Uncut (held more : List Char) : Prop :=
  held = [] ∨ held = ['\r'] → ¬ ['\r', '\n'].isPrefixOf (held ++ more) = true

theorem blank_of_append {data front : List Char}
    (split : cString data = front ++ p)
    (longer : cString (data ++ more) = cString data ++ rest)
    (goesOn : rest ≠ [] → cString data = data ∧ rest <+: more)
    (uncut : Uncut (data.drop front.length) more)
    (blank : ['\r', '\n'].isPrefixOf (p ++ rest) = true) :
    ['\r', '\n'].isPrefixOf p = true := by
  by_contra cut
  have visible : rest ≠ [] := by
    rintro rfl
    rw [append_nil] at blank
    exact cut blank
  obtain ⟨whole, begins⟩ := goesOn visible
  have held : data.drop front.length = p := by
    rw [← whole, split, drop_left]
  have extended : p ++ rest <+: p ++ more := prefix_append_right_inj p
    |>.mpr begins
  have later : ['\r', '\n'].isPrefixOf (p ++ more) = true :=
    List.isPrefixOf_iff_prefix.mpr
      ((List.isPrefixOf_iff_prefix.mp blank).trans extended)
  rw [held] at uncut
  match p, cut, blank, uncut, later with
  | [], _, _, uncut, later => exact uncut (.inl rfl) later
  | [c], _, blank, uncut, later =>
    have first : '\r' = c := by
      have := List.isPrefixOf_iff_prefix.mp blank
      rw [cons_append, cons_prefix_cons] at this
      exact this.1
    subst first
    exact uncut (.inr rfl) later
  | c :: d :: p, cut, blank, _, _ =>
    have both := List.isPrefixOf_iff_prefix.mp blank
    rw [cons_append, cons_append, cons_prefix_cons, cons_prefix_cons] at both
    obtain ⟨first, second, -⟩ := both
    subst first
    subst second
    exact cut rfl

/-- What `_parseHeader` does: nothing, or it reads a line. -/
theorem parseHeader_read (stat : s.parseStat = 1)
    (result : parseHeader code (requestVirtual code false) s = some (ret, t)) :
    ret = 0 ∧ t = s ∨
      0 < ret ∧ t.bodyBuf.length < s.bodyBuf.length ∧
        (t.parseStat = 3 ∨ t.parseError = s.parseError ∧
          (t.parseStat = 1 ∨ t.parseStat = 2 ∧ t.action ≠ .get)) ∧
        ∀ more, (t.parseStat = 1 → Uncut t.bodyBuf more) →
          parseHeader code (requestVirtual code false) (s.extend more) =
            some (ret, t.extend more) := by
  rw [parseHeader] at result
  cases scanned : headerLine code s.bodyBuf with
  | none =>
    rw [scanned] at result
    cases result
  | some found =>
    rw [scanned] at result
    cases found with
    | none =>
      cases result
      exact .inl ⟨rfl, rfl⟩
    | some pair =>
      right
      obtain ⟨node, p⟩ := pair
      dsimp only at result
      obtain ⟨front, visible, split⟩ := headerLine_suffix scanned
      have positive := length_pos_iff.mpr visible
      have lengths := congrArg length split
      rw [length_append] at lengths
      have later : ∀ more rest,
          cString (s.bodyBuf ++ more) = cString s.bodyBuf ++ rest →
          headerLine code (s.extend more).bodyBuf =
            some (some (node, p ++ rest)) :=
        fun more rest longer => headerLine_append scanned longer
      by_cases blank : ['\r', '\n'].isPrefixOf p = true
      · rw [if_pos blank] at result
        obtain ⟨u, ended, same⟩ := Option.map_eq_some_iff.mp result
        obtain ⟨body, stats⟩ := headerEnd_alike ended
        obtain ⟨behind, rfl⟩ := List.isPrefixOf_iff_prefix.mp blank
        obtain ⟨rfl, rfl⟩ := Prod.mk.inj same
        rw [length_append] at lengths
        have shorter : behind.length < (cString u.bodyBuf).length := by
          rw [body]
          change _ < (cString s.bodyBuf).length
          omega
        obtain ⟨progress, less⟩ := subData_length (s := u) shorter
        rw [body] at less
        refine ⟨progress, less, ?_, fun more _ => ?_⟩
        · rcases stats with three | ⟨two, other, error⟩
          · exact .inl three
          · exact .inr ⟨error, .inr ⟨two, other⟩⟩
        · obtain ⟨rest, longer, -⟩ := cString_append s.bodyBuf more
          have ends : headerEnd (requestVirtual code false) (HttpParser.extend
              { s with header := s.header ++ [node] } more) = _ :=
            headerEnd_extend _ more
          rw [ended, Option.map_some] at ends
          rw [parseHeader, later more rest longer]
          change (headerEnd _ (HttpParser.extend
            { s with header := s.header ++ [node] } more)).map _ = _
          rw [ends, Option.map_some, append_assoc]
          exact congrArg some
            (subData_extend (s := u) (by rw [body]; exact longer) behind)
      · rw [if_neg blank] at result
        obtain ⟨rfl, rfl⟩ := Prod.mk.inj (Option.some.inj result)
        have shorter : p.length < (cString s.bodyBuf).length := by omega
        obtain ⟨progress, less⟩ := subData_length (s := s) shorter
        refine ⟨progress, less, .inr ⟨rfl, .inl stat⟩, fun more uncut => ?_⟩
        obtain ⟨rest, longer, goesOn⟩ := cString_append s.bodyBuf more
        have still : ¬ ['\r', '\n'].isPrefixOf (p ++ rest) = true := by
          intro both
          refine blank (blank_of_append split longer goesOn ?_ both)
          have held := uncut stat
          rwa [split, distance, length_append, Nat.add_sub_cancel] at held
        rw [parseHeader, later more rest longer]
        dsimp only
        rw [if_neg still]
        exact congrArg some (subData_extend
          (s := { s with header := s.header ++ [node] }) longer p)

theorem parseBody_read
    (result : parseBody (requestVirtual code false) s = some (ret, t)) :
    ret = 0 ∧ t = s ∨
      t.parseStat = 3 ∧ ret = s.bodyBuf.length ∧ t.bodyBuf = s.bodyBuf ∧
        ∀ more, Blind t →
          parseBody (requestVirtual code false) (s.extend more) =
            some (((s.bodyBuf ++ more).length : Int), t.extend more) := by
  rw [parseBody] at result
  by_cases free : findBodySize s.header = 0 ∨ findBodySize s.header = -1
  · rw [if_pos free] at result
    dsimp only at result
    cases ends : strstr ['\r', '\n', '\r', '\n'] (cString s.bodyBuf) with
    | none =>
      rw [ends] at result
      cases result
      exact .inl ⟨rfl, rfl⟩
    | some p =>
      rw [ends] at result
      obtain ⟨u, ended, same⟩ := Option.map_eq_some_iff.mp result
      obtain ⟨rfl, rfl⟩ := Prod.mk.inj same
      obtain ⟨stat, body, -, -⟩ := setParseEnd_alike ended
      refine .inr ⟨stat, rfl, body, fun more blind => ?_⟩
      obtain ⟨rest, longer, -⟩ := cString_append s.bodyBuf more
      have later := setParseEnd_later ended blind more
      rw [parseBody, if_pos (show findBodySize (s.extend more).header = 0 ∨
        findBodySize (s.extend more).header = -1 from free),
        show (s.extend more).bodyBuf = s.bodyBuf ++ more from rfl, longer]
      dsimp only
      rw [strstr_append ends (cons_ne_nil _ _)]
      dsimp only
      rw [distance_append]
      exact congrArg (Option.map fun s =>
        (((_ ++ more : List Char).length : Int), s)) later
  · rw [if_neg free] at result
    by_cases enough : findBodySize s.header ≤ s.bodyBuf.length
    · rw [if_pos enough] at result
      obtain ⟨u, ended, same⟩ := Option.map_eq_some_iff.mp result
      obtain ⟨rfl, rfl⟩ := Prod.mk.inj same
      obtain ⟨stat, body, -, -⟩ := setParseEnd_alike ended
      refine .inr ⟨stat, rfl, body, fun more blind => ?_⟩
      have later := setParseEnd_later ended blind more
      have still : findBodySize (s.extend more).header ≤
          ((s.extend more).bodyBuf.length : Int) := by
        change _ ≤ ((s.bodyBuf ++ more).length : Int)
        rw [length_append]
        exact Int.le_trans enough (by omega)
      rw [parseBody, if_neg (show ¬ (findBodySize (s.extend more).header = 0 ∨
        findBodySize (s.extend more).header = -1) from free), if_pos still]
      exact congrArg (Option.map fun s =>
        (((_ ++ more : List Char).length : Int), s)) later
    · rw [if_neg enough] at result
      cases result
      exact .inl ⟨rfl, rfl⟩

end Stages

variable {t' : HttpRequest}

section Turns

variable {code : CodeType} {s t u : HttpRequest} {ret : Int}
  {before more : List Char}

theorem parseData_line (stat : s.parseStat = 0) :
    parseData code (requestVirtual code false) s = parseProtocol s := by
  rw [parseData, if_pos stat]
  rfl

theorem parseData_header (stat : s.parseStat = 1) :
    parseData code (requestVirtual code false) s =
      parseHeader code (requestVirtual code false) s := by
  rw [parseData, if_neg (by omega), if_pos stat]

theorem parseData_end (stat : s.parseStat = 2) (get : s.action = .get) :
    parseData code (requestVirtual code false) s =
      (setParseEnd (requestVirtual code false) s).map fun s => (0, s) := by
  rw [parseData, if_neg (by omega), if_neg (by omega), if_pos stat, if_pos get]

theorem parseData_body (stat : s.parseStat = 2) (other : s.action ≠ .get) :
    parseData code (requestVirtual code false) s =
      parseBody (requestVirtual code false) s := by
  rw [parseData, if_neg (by omega), if_neg (by omega), if_pos stat,
    if_neg other]

theorem turn_done (done : ¬ s.parseStat < 3) :
    turn code (requestVirtual code false) s = some (.stop s) := by
  rw [turn, if_neg done]

theorem turn_empty (empty : s.bodyBuf = []) (waits : s.parseStat = 1 ∨
    s.parseStat = 2 ∧ s.action ≠ .get ∧ -1 ≤ findBodySize s.header) :
    turn code (requestVirtual code false) s = some (.stop s) := by
  have idle : parseData code (requestVirtual code false) s = some (0, s) := by
    rcases waits with one | ⟨two, other, size⟩
    · rw [parseData_header one, parseHeader, empty]
      rfl
    · rw [parseData_body two other, parseBody, empty]
      by_cases free : findBodySize s.header = 0 ∨ findBodySize s.header = -1
      · rw [if_pos free]
        rfl
      · rw [if_neg free, if_neg]
        rw [length_nil]
        omega
  rw [turn, if_pos (by omega), idle]
  rfl

theorem drains_parsed (waits : s.parseStat < 3)
    (parsed : parseData code (requestVirtual code false) s = some (ret, t))
    (next : turn code (requestVirtual code false) t = some (.stop t) ∨
      0 < ret ∧ t.bodyBuf ≠ [] ∧ t.parseError = false) :
    Pass.Drains (turn code (requestVirtual code false)) t u ↔
      Pass.Drains (turn code (requestVirtual code false)) s u := by
  have turned : turn code (requestVirtual code false) s =
      some (if 0 < ret ∧ t.bodyBuf ≠ [] ∧ t.parseError = false then .again t
        else .stop t) := by
    rw [turn, if_pos waits, parsed]
    rfl
  by_cases goes : 0 < ret ∧ t.bodyBuf ≠ [] ∧ t.parseError = false
  · rw [if_pos goes] at turned
    exact (Pass.drains_again_iff turned).symm
  · rw [if_neg goes] at turned
    rcases next with stops | more
    · rw [Pass.drains_stop_iff turned, Pass.drains_stop_iff stops]
    · exact absurd more goes

def headerRead (before : List Char) (s : HttpRequest) : Bool :=
  (parseProtocol (HttpRequest.reset.extend before)).any fun read =>
    decide (0 < read.1) &&
      decide (s.bodyBuf.length < read.2.bodyBuf.length)

/-- The bytes before a call have not been cut where the parser cannot bear it:
in a first line whose path has begun, in the blank line behind the headers, or
behind the end of a request with a form. -/
structure Arrives (before : List Char) (s : HttpRequest) (data : List Char) :
    Prop where
  line : s.parseStat = 0 → pathBegun s.bodyBuf = false
  headers : s.parseStat = 1 → headerRead before s = true →
    ¬ ['\r', '\n'].isPrefixOf (s.bodyBuf ++ data) = true
  body : s.parseStat = 2 → s.bodyBuf = [] → data = [] →
    -1 ≤ findBodySize s.header
  ended : s.parseStat = 3 →
    data = [] ∨ s.action ≠ .post ∨ formless s.header = true

instance (before : List Char) (s : HttpRequest) (data : List Char) :
    Decidable (Arrives before s data) :=
  decidable_of_iff
    ((s.parseStat = 0 → pathBegun s.bodyBuf = false) ∧
      (s.parseStat = 1 → headerRead before s = true →
        ¬ ['\r', '\n'].isPrefixOf (s.bodyBuf ++ data) = true) ∧
      (s.parseStat = 2 → s.bodyBuf = [] → data = [] →
        -1 ≤ findBodySize s.header) ∧
      (s.parseStat = 3 →
        data = [] ∨ s.action ≠ .post ∨ formless s.header = true))
    ⟨fun all => ⟨all.1, all.2.1, all.2.2.1, all.2.2.2⟩,
      fun arrives => ⟨arrives.line, arrives.headers, arrives.body,
        arrives.ended⟩⟩

/-- What is known of the parser between the passes of a call. -/
structure Underway (before : List Char) (t : HttpRequest) : Prop where
  first : t.parseStat = 0 → t = HttpRequest.reset.extend before
  lines : t.parseStat = 1 → ∃ ret u,
    parseProtocol (HttpRequest.reset.extend before) = some (ret, u) ∧ 0 < ret ∧
      t.bodyBuf.length ≤ u.bodyBuf.length
  visible : t.parseStat = 2 → t.bodyBuf ≠ []
  calm : t.parseStat < 3 → t.parseError = false

def Ends (code : CodeType) (ret : Int) (t s : HttpRequest) : Prop :=
  ¬ (0 < ret ∧ t.bodyBuf ≠ [] ∧ t.parseError = false) ∧ t = s ∨
    (0 < ret ∧ t.bodyBuf ≠ [] ∧ t.parseError = false) ∧
      Pass.Drains (turn code (requestVirtual code false)) t s

theorem Ends.eq (ends : Ends code ret t s)
    (stops : turn code (requestVirtual code false) t = some (.stop t)) : t = s := by
  rcases ends with ⟨-, same⟩ | ⟨-, drains⟩
  · exact same
  · exact (Pass.drains_stop_iff stops).mp drains

section

variable (underway : Underway before t)
include underway

theorem headerRead_of_lt (stat : t.parseStat = 1)
    (shorter : s.bodyBuf.length < t.bodyBuf.length) :
    headerRead before s = true := by
  obtain ⟨ret, u, read, progress, within⟩ := underway.lines stat
  rw [headerRead, read, Option.any_some, Bool.and_eq_true]
  exact ⟨decide_eq_true progress,
    decide_eq_true (Nat.lt_of_lt_of_le shorter within)⟩

theorem line_extend (stat : t.parseStat = 0)
    (parsed : parseProtocol t = some (ret, t')) (ends : Ends code ret t' s)
    (arrives : Arrives before s more) :
    (Pass.Drains (turn code (requestVirtual code false)) (t'.extend more) u ↔
      Pass.Drains (turn code (requestVirtual code false)) (t.extend more) u) ∧
      (0 < ret → t'.parseError = false → Underway before t') := by
  by_cases progress : 0 < ret
  · obtain ⟨one, error, -, later⟩ := parseProtocol_read parsed progress
    refine ⟨?_, fun _ calm => ?_⟩
    · have parsedLater : parseData code (requestVirtual code false)
          (t.extend more) = some (ret, t'.extend more) := by
        rw [parseData_line (s := t.extend more) stat]
        exact later more
      refine drains_parsed (show t.parseStat < 3 by omega) parsedLater ?_
      by_cases empty : (t'.extend more).bodyBuf = []
      · exact .inl (turn_empty empty (.inl one))
      · refine .inr ⟨progress, empty, ?_⟩
        exact error.trans (underway.calm (by omega))
    · have same := underway.first stat
      subst same
      exact
        { first := fun zero => by omega
          lines := fun _ => ⟨ret, t', parsed, progress, Nat.le_refl _⟩
          visible := fun two => by omega
          calm := fun _ => calm }
  · obtain ⟨stat', body, again⟩ := parseProtocol_stalled parsed progress
    refine ⟨?_, fun positive => absurd positive progress⟩
    have same : t' = s := by
      rcases ends with ⟨-, same⟩ | ⟨goes, -⟩
      · exact same
      · exact absurd goes.1 progress
    have clean : pathBegun t.bodyBuf = false := by
      rw [← body, same]
      exact arrives.line (by rw [← same, stat', stat])
    have waits : (t.extend more).parseStat < 3 := by
      change t.parseStat < 3
      omega
    apply Pass.drains_congr
    rw [turn, turn, parseData_line (s := t.extend more) stat,
      parseData_line (s := t'.extend more) (stat'.trans stat),
      again clean more,
      show (t'.extend more).parseStat = (t.extend more).parseStat from stat',
      if_pos waits, if_pos waits]

theorem header_extend (stat : t.parseStat = 1)
    (parsed : parseHeader code (requestVirtual code false) t = some (ret, t'))
    (ends : Ends code ret t' s) (arrives : Arrives before s more) :
    (Pass.Drains (turn code (requestVirtual code false)) (t'.extend more) u ↔
      Pass.Drains (turn code (requestVirtual code false)) (t.extend more) u) ∧
      (0 < ret → t'.parseError = false → t'.bodyBuf ≠ [] →
        Underway before t') := by
  rcases parseHeader_read stat parsed with
    ⟨rfl, rfl⟩ | ⟨progress, shorter, stats, later⟩
  · exact ⟨Iff.rfl, fun positive => absurd positive (by decide)⟩
  refine ⟨?_, fun _ calm visible => ?_⟩
  · have uncut : t'.parseStat = 1 → Uncut t'.bodyBuf more := by
      intro one short blank
      have stops : turn code (requestVirtual code false) t' =
          some (.stop t') := by
        rcases short with empty | single
        · exact turn_empty empty (.inl one)
        · rw [turn, if_pos (by omega), parseData_header one, parseHeader,
            single, headerLine_return]
          rfl
      have same := ends.eq stops
      subst same
      exact arrives.headers one
        (headerRead_of_lt underway stat shorter) blank
    have parsedLater : parseData code (requestVirtual code false)
        (t.extend more) = some (ret, t'.extend more) := by
      rw [parseData_header (s := t.extend more) stat]
      exact later more uncut
    refine drains_parsed (show t.parseStat < 3 by omega) parsedLater ?_
    rcases stats with three | ⟨error, stats⟩
    · exact .inl (turn_done (show ¬ t'.parseStat < 3 by omega))
    by_cases empty : (t'.extend more).bodyBuf = []
    · left
      obtain ⟨gone, none⟩ := append_eq_nil_iff.mp empty
      rcases stats with one | ⟨two, other⟩
      · exact turn_empty empty (.inl one)
      · refine turn_empty empty (.inr ⟨two, other, ?_⟩)
        have same : t' = s := by
          rcases ends with ⟨-, same⟩ | ⟨goes, -⟩
          · exact same
          · exact absurd gone goes.2.1
        subst same
        exact arrives.body two gone none
    · refine .inr ⟨progress, empty, ?_⟩
      exact error.trans (underway.calm (by omega))
  · refine
      { first := fun zero => ?_
        lines := fun one => ?_
        visible := fun _ => visible
        calm := fun _ => calm }
    · rcases stats with three | ⟨-, one | two⟩ <;> omega
    · obtain ⟨ret', u', read, positive, within⟩ := underway.lines stat
      exact ⟨ret', u', read, positive, by omega⟩

theorem body_extend (stat : t.parseStat = 2)
    (parsed : parseData code (requestVirtual code false) t = some (ret, t'))
    (ends : Ends code ret t' s) (arrives : Arrives before s more) :
    (Pass.Drains (turn code (requestVirtual code false)) (t'.extend more) u ↔
      Pass.Drains (turn code (requestVirtual code false)) (t.extend more) u) ∧
      (0 < ret → Underway before t') := by
  have waits : t.parseStat < 3 := by omega
  have complete : t'.parseStat = 3 → 0 < ret → Underway before t' := by
    intro three _
    exact
      { first := fun zero => by omega
        lines := fun one => by omega
        visible := fun two => by omega
        calm := fun waiting => by omega }
  have result := parsed
  by_cases get : t.action = .get
  · rw [parseData_end stat get] at parsed
    obtain ⟨v, ended, same⟩ := Option.map_eq_some_iff.mp parsed
    obtain ⟨rfl, rfl⟩ := Prod.mk.inj same
    obtain ⟨three, -, -, action⟩ := setParseEnd_alike ended
    have blind : Blind v := by
      left
      rw [action, show ({ t with parseStat := 3 } : HttpRequest).action =
        t.action from rfl, get]
      decide
    have done : ¬ v.parseStat < 3 := by
      rw [three]
      exact Nat.lt_irrefl 3
    refine ⟨?_, complete three⟩
    have parsedLater : parseData code (requestVirtual code false)
        (t.extend more) = some (0, v.extend more) := by
      rw [parseData_end (s := t.extend more) stat get,
        setParseEnd_later ended blind]
      rfl
    exact drains_parsed (s := t.extend more) waits parsedLater
      (.inl (turn_done (s := v.extend more) done))
  · rw [parseData_body stat get] at parsed
    rcases parseBody_read parsed with ⟨rfl, rfl⟩ | ⟨three, length, body, later⟩
    · exact ⟨Iff.rfl, fun positive => absurd positive (by decide)⟩
    refine ⟨?_, complete three⟩
    have stops : turn code (requestVirtual code false) t' = some (.stop t') :=
      turn_done (by omega)
    have same := ends.eq stops
    subst same
    by_cases none : more = []
    · subst none
      rw [HttpParser.extend_nil, HttpParser.extend_nil]
      exact drains_parsed waits result (.inl stops)
    · have blind : Blind t' := by
        rcases arrives.ended three with empty | other | without
        · exact absurd empty none
        · exact .inl other
        · exact .inr ⟨without, by rw [body]; exact underway.visible stat⟩
      have parsedLater : parseData code (requestVirtual code false)
          (t.extend more) =
            some (((t.bodyBuf ++ more).length : Int), t'.extend more) := by
        rw [parseData_body (s := t.extend more) stat get]
        exact later more blind
      exact drains_parsed (s := t.extend more) waits parsedLater
        (.inl (turn_done (s := t'.extend more) (by
          rw [show (t'.extend more).parseStat = 3 from three]
          exact Nat.lt_irrefl 3)))

end

/-- What comes behind the bytes of a call is taken as if it had come with
them. -/
theorem drains_extend
    (drains : Pass.Drains (turn code (requestVirtual code false)) t s)
    (underway : Underway before t) (arrives : Arrives before s more) :
    Pass.Drains (turn code (requestVirtual code false)) (s.extend more) u ↔
      Pass.Drains (turn code (requestVirtual code false)) (t.extend more) u := by
  have pass : ∀ {t t' : HttpRequest} {ret : Int}, Underway before t →
      t.parseStat < 3 →
      parseData code (requestVirtual code false) t = some (ret, t') →
      Ends code ret t' s →
      (Pass.Drains (turn code (requestVirtual code false)) (t'.extend more) u ↔
        Pass.Drains (turn code (requestVirtual code false)) (t.extend more) u) ∧
        (0 < ret → t'.parseError = false → t'.bodyBuf ≠ [] →
          Underway before t') := by
    intro t t' ret underway waits parsed ends
    by_cases zero : t.parseStat = 0
    · rw [parseData_line zero] at parsed
      obtain ⟨same, next⟩ := line_extend underway zero parsed ends arrives
      exact ⟨same, fun progress calm _ => next progress calm⟩
    · by_cases one : t.parseStat = 1
      · rw [parseData_header one] at parsed
        exact header_extend underway one parsed ends arrives
      · obtain ⟨same, next⟩ :=
          body_extend underway (by omega) parsed ends arrives
        exact ⟨same, fun progress _ _ => next progress⟩
  induction drains with
  | @stop t s stops =>
    by_cases waits : t.parseStat < 3
    · rw [turn, if_pos waits] at stops
      obtain ⟨⟨ret, t'⟩, parsed, same⟩ := Option.map_eq_some_iff.mp stops
      dsimp only at same
      split at same
      · cases same
      · rename_i ended
        cases same
        exact (pass underway waits parsed (.inl ⟨ended, rfl⟩)).1
    · rw [turn_done waits] at stops
      cases stops
      exact Iff.rfl
  | @again t t' s goes rest induction =>
    by_cases waits : t.parseStat < 3
    · rw [turn, if_pos waits] at goes
      obtain ⟨⟨ret, v⟩, parsed, same⟩ := Option.map_eq_some_iff.mp goes
      dsimp only at same
      split at same
      · rename_i going
        cases same
        obtain ⟨same, next⟩ :=
          pass underway waits parsed (.inr ⟨going, rest⟩)
        exact (induction (next going.1 going.2.2 going.2.1) arrives
          pass).trans same
      · cases same
    · rw [turn_done waits] at goes
      cases goes

theorem turn_falls (goes : turn code (requestVirtual code false) s =
    some (.again t)) :
    (if t.parseStat < 3 then t.bodyBuf.length + 1 else 0) <
      if s.parseStat < 3 then s.bodyBuf.length + 1 else 0 := by
  by_cases waits : s.parseStat < 3
  · rw [turn, if_pos waits] at goes
    obtain ⟨⟨ret, v⟩, parsed, same⟩ := Option.map_eq_some_iff.mp goes
    dsimp only at same
    split at same
    · rename_i going
      cases same
      have done : t.parseStat = 3 ∨ t.bodyBuf.length < s.bodyBuf.length := by
        by_cases zero : s.parseStat = 0
        · rw [parseData_line zero] at parsed
          exact .inr (parseProtocol_read parsed going.1).2.2.1
        by_cases one : s.parseStat = 1
        · rw [parseData_header one] at parsed
          rcases parseHeader_read one parsed with
            ⟨rfl, -⟩ | ⟨-, shorter, -⟩
          · exact absurd going.1 (by decide)
          · exact .inr shorter
        · have two : s.parseStat = 2 := by omega
          by_cases get : s.action = .get
          · rw [parseData_end two get] at parsed
            obtain ⟨v, -, same⟩ := Option.map_eq_some_iff.mp parsed
            cases same
            exact absurd going.1 (by decide)
          · rw [parseData_body two get] at parsed
            rcases parseBody_read parsed with ⟨rfl, -⟩ | ⟨three, -⟩
            · exact absurd going.1 (by decide)
            · exact .inl three
      split <;> omega
    · cases same
  · rw [turn_done waits] at goes
    cases goes

theorem parseData_shrinks
    (parsed : parseData code (requestVirtual code false) s = some (ret, t)) :
    t.bodyBuf.length ≤ s.bodyBuf.length := by
  by_cases zero : s.parseStat = 0
  · rw [parseData_line zero] at parsed
    by_cases progress : 0 < ret
    · exact Nat.le_of_lt (parseProtocol_read parsed progress).2.2.1
    · rw [(parseProtocol_stalled parsed progress).2.1]
  by_cases one : s.parseStat = 1
  · rw [parseData_header one] at parsed
    rcases parseHeader_read one parsed with ⟨-, rfl⟩ | ⟨-, shorter, -⟩
    · exact Nat.le_refl _
    · exact Nat.le_of_lt shorter
  by_cases two : s.parseStat = 2
  · by_cases get : s.action = .get
    · rw [parseData_end two get] at parsed
      obtain ⟨v, ended, same⟩ := Option.map_eq_some_iff.mp parsed
      cases same
      rw [(setParseEnd_alike ended).2.1]
    · rw [parseData_body two get] at parsed
      rcases parseBody_read parsed with ⟨-, rfl⟩ | ⟨-, -, body, -⟩
      · exact Nat.le_refl _
      · rw [body]
  · rw [parseData, if_neg zero, if_neg one, if_neg two] at parsed
    cases parsed
    exact Nat.le_refl _

theorem turn_shrinks {next : Pass HttpRequest}
    (turned : turn code (requestVirtual code false) s = some next) :
    next.state.bodyBuf.length ≤ s.bodyBuf.length := by
  by_cases waits : s.parseStat < 3
  · rw [turn, if_pos waits] at turned
    obtain ⟨⟨ret, t⟩, parsed, same⟩ := Option.map_eq_some_iff.mp turned
    have shorter := parseData_shrinks parsed
    dsimp only at same
    split at same <;> cases same <;> exact shorter
  · rw [turn_done waits] at turned
    cases turned
    exact Nat.le_refl _

theorem underway_reset (before : List Char) :
    Underway before (HttpRequest.reset.extend before) where
  first := fun _ => rfl
  lines := fun one => nomatch one
  visible := fun two => nomatch two
  calm := fun _ => rfl

end Turns

section Calls

variable {code : CodeType} {s : Buffered RequestFields} {u : HttpRequest}
  {before data : List Char}

theorem turn_parsed {b : Buffered RequestFields}
    {next : Pass (Buffered RequestFields)}
    (turned : b.turn code (requestVirtual code) = some next) :
    turn code (requestVirtual code false) b.parser =
      some (next.map Buffered.parser) := by
  rw [Buffered.turn] at turned
  split at turned
  · cases turned
  obtain ⟨seen, same, rfl⟩ := Option.map_eq_some_iff.mp turned
  have whole : (seen.map b.advance).map Buffered.parser = seen := by
    cases seen <;> rfl
  rw [whole]
  rw [turn] at same ⊢
  split at same
  · rename_i waits
    rw [if_pos waits]
    obtain ⟨read, parsed, ends⟩ := Option.map_eq_some_iff.mp same
    rw [parseData_room parsed, Option.map_some, ends]
  · rename_i done
    rw [if_neg done]
    exact same

theorem turn_roomy {b : Buffered RequestFields} {next : Pass HttpRequest}
    (room : ¬ b.block.Full b.parser.bodyBuf.length)
    (turned : turn code (requestVirtual code false) b.parser = some next) :
    ∃ pass_, b.turn code (requestVirtual code) = some pass_ ∧
      pass_.map Buffered.parser = next ∧
      ¬ pass_.state.block.Full pass_.state.parser.bodyBuf.length := by
  have roomy : b.full = false := by
    rw [Buffered.full, decide_eq_false room, Bool.false_and]
  have shorter := turn_shrinks turned
  refine ⟨next.map b.advance, ?_, ?_, ?_⟩
  · rw [Buffered.turn, roomy, Bool.false_and, if_neg Bool.false_ne_true, turned,
      Option.map_some]
  · cases next <;> rfl
  · have behind : (next.map b.advance).state = b.advance next.state := by
      cases next <;> rfl
    rw [behind, Buffered.advance]
    split
    · intro full
      exact room (Nat.le_trans full (Nat.add_le_add_left shorter _))
    · intro full
      have rest := Nat.sub_sub_self shorter
      refine room (@LineBlock.full_of_subData _ _
        (b.parser.bodyBuf.length - next.state.bodyBuf.length) ?_)
      rwa [rest]

theorem bufferedTurn_falls {b c : Buffered RequestFields}
    (goes : b.turn code (requestVirtual code) = some (.again c)) :
    (if c.parser.parseStat < 3 then c.parser.bodyBuf.length + 1 else 0) <
      if b.parser.parseStat < 3 then b.parser.bodyBuf.length + 1 else 0 :=
  turn_falls (turn_parsed goes)

/-- What is in the block is what has come, if it has come into its place. -/
theorem requestInData_drains
    (seats : s.block.Seats '\x00' s.parser.bodyBuf data)
    {t : Buffered RequestFields} (fed : requestInData code s data = some t) :
    Pass.Drains (turn code (requestVirtual code false)) (s.parser.extend data)
      t.parser := by
  obtain ⟨⟨block, bodyBuf⟩, written, drained⟩ :=
    Option.bind_eq_some_iff.mp fed
  obtain rfl := LineBlock.write_of_seats seats written
  exact (Pass.drains_of_drain drained).map fun _ _ => turn_parsed

def Buffered.fresh (capacity : Nat) : Buffered RequestFields :=
  ⟨HttpRequest.reset, ⟨capacity, 0⟩⟩

theorem requestInData_fresh {capacity : Nat} (some_ : 0 < capacity)
    (fills : data.length ≠ capacity)
    (drains : Pass.Drains (turn code (requestVirtual code false))
      (HttpRequest.reset.extend data) u) :
    ∃ t, requestInData code (.fresh capacity) data = some t ∧ t.parser = u := by
  obtain ⟨block, written, -, -, -, full⟩ :=
    @LineBlock.write_empty Char ⟨capacity, 0⟩ some_ rfl '\x00' data
  obtain ⟨t, buffered, same, -⟩ := @Pass.Drains.lift
    (Buffered RequestFields) _ _ ⟨HttpRequest.reset.extend data, block⟩ _
    Buffered.parser _ _ (fun b => ¬ b.block.Full b.parser.bodyBuf.length) rfl
    (fun filled => fills (full.mp filled)) (fun _ _ => turn_roomy) drains
  refine ⟨t, ?_, same⟩
  rw [requestInData, Buffered.inData,
    show (Buffered.fresh capacity).block.write '\x00'
      (Buffered.fresh capacity).parser.bodyBuf data = some (block, data) from
      written, Option.bind_some]
  refine (Pass.drain_eq_some_iff (fun _ _ => bufferedTurn_falls) ?_).mpr
    buffered
  dsimp only
  split <;> omega

/-- Every piece arrives where the parser can bear it, and finds room in the
block. -/
def ArrivesRun (code : CodeType) (before : List Char)
    (s : Buffered RequestFields) : List (List Char) → Prop
  | [] => True
  | data :: pieces =>
    (Arrives before s.parser data ∧
      s.block.Seats '\x00' s.parser.bodyBuf data) ∧
    ∀ s', requestInData code s data = some s' →
      ArrivesRun code (before ++ data) s' pieces

def postedForm : List (List Char) :=
  ["POST ".toList, "/p?q=1 HTTP/1.1\r\nContent-Le".toList,
    "ngth: 3\r\nContent-Type: ".toList,
    "application/x-www-form-urlencoded\r\n\r\na".toList, "=1".toList]

instance decidableArrivesRun (code : CodeType) :
    ∀ (before : List Char) (s : Buffered RequestFields)
      (pieces : List (List Char)), Decidable (ArrivesRun code before s pieces)
  | _, _, [] => .isTrue trivial
  | before, s, data :: pieces =>
    match fed : requestInData code s data with
    | none => decidable_of_iff (Arrives before s.parser data ∧
          s.block.Seats '\x00' s.parser.bodyBuf data)
        ⟨fun here => ⟨here, fun _ other => nomatch fed.symm.trans other⟩,
          fun arrives => arrives.1⟩
    | some between =>
      have := decidableArrivesRun code (before ++ data) between pieces
      decidable_of_iff ((Arrives before s.parser data ∧
        s.block.Seats '\x00' s.parser.bodyBuf data) ∧
        ArrivesRun code (before ++ data) between pieces)
        ⟨fun both => ⟨both.1, fun _ other =>
          Option.some.inj (fed.symm.trans other) ▸ both.2⟩,
          fun arrives => ⟨arrives.1, arrives.2 between fed⟩⟩

/-- A field is another one if the pieces come in calls of their own. -/
def differsIn {β : Type} [DecidableEq β] (field : HttpRequest → β)
    (pieces : List (List Char)) : Bool :=
  match requestInDataAll .ansi (.fresh 4096) pieces,
      requestInData .ansi (.fresh 4096) pieces.flatten with
  | some s, some t => field s.parser != field t.parser
  | _, _ => false

def longHead : List Char :=
  "POST /a HTTP/1.1\r\nContent-Length: 4097\r\n\r\n".toList

end Calls

end NdNet.Http
