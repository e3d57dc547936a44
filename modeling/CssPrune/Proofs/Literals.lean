import CssPrune.Html.Scan
import CssPrune.Proofs.Captures

/-!
# Quoted literals

An expression is cut into pieces at its single quotes. The search for literals goes from the first
quote to the second, from the third to the fourth and so on, so it finds the pieces with odd numbers
that have another piece behind them (`Html.captures_literalPattern`): the pieces between are passed,
and so is a last quote without a partner. Only a line feed in a literal would break the pairs.
-/

namespace CssPrune.Html

open Text (singleQuote)

/-! ## Pieces -/

/-- Of pieces that are counted from zero, those with an odd number that have another one behind
them. -/
def closedPieces : List Text → List Text
  | _ :: literal :: behind :: pieces => literal :: closedPieces (behind :: pieces)
  | _ => []

/-- A piece with another one behind it is a literal, and the pieces go on from that one. -/
lemma closedPieces_cons_cons (front literal : Text) {pieces : List Text} (h : pieces ≠ []) :
    closedPieces (front :: literal :: pieces) = literal :: closedPieces pieces := by
  obtain ⟨behind, rest, rfl⟩ := List.exists_cons_of_ne_nil h
  rfl

/-- The closed pieces are those with odd numbers that have another piece behind them. -/
lemma getElem?_closedPieces (pieces : List Text) (n : Nat) :
    (closedPieces pieces)[n]? = if 2 * n + 2 < pieces.length then pieces[2 * n + 1]? else none := by
  fun_induction closedPieces pieces generalizing n with
  | case1 front literal behind pieces ih =>
    cases n with
    | zero => simp
    | succ n =>
      have hindex : 2 * (n + 1) + 1 = 2 * n + 1 + 2 := by omega
      have hlength : 2 * (n + 1) + 2 < (front :: literal :: behind :: pieces).length ↔
          2 * n + 2 < (behind :: pieces).length := by
        simp only [List.length_cons]
        omega
      rw [List.getElem?_cons_succ, ih, hindex]
      simp only [hlength]
      rfl
  | case2 pieces hshort =>
    have hlength : ¬ 2 * n + 2 < pieces.length := by
      intro hlong
      match pieces, hlong with
      | front :: literal :: behind :: rest, _ => exact hshort front literal behind rest rfl
    rw [if_neg hlength, List.getElem?_nil]

/-! ## Matches -/

/-- A literal between quotes is read to its closing quote. -/
lemma read?_literalPattern {literal : Text} (hquote : singleQuote ∉ literal)
    (hline : '\n' ∉ literal) (rest : Text) :
    literalPattern.read? (singleQuote :: (literal ++ singleQuote :: rest)) =
      some (literal, rest) := by
  have hliteral : ∀ c ∈ literal, (c != singleQuote && c != '\n') = true := by
    intro c hc
    rw [Text.bne_of_not_mem hquote c hc, Text.bne_of_not_mem hline c hc]
    rfl
  have hbefore : Part.readAll? literalPattern.before
      (singleQuote :: (literal ++ singleQuote :: rest)) =
      some ([singleQuote], literal ++ singleQuote :: rest) :=
    Part.readAll?_cons_append (show (Part.literal [singleQuote]).Takes [singleQuote] from rfl)
      (fun _ _ => rfl) rfl
  have hcaptured : Part.readAll? literalPattern.captured (literal ++ singleQuote :: rest) =
      some (literal ++ [], singleQuote :: rest) := by
    refine Part.readAll?_cons_append hliteral (fun c hc => ?_) rfl
    obtain rfl : singleQuote = c := Option.some.inj hc
    rfl
  rw [List.append_nil] at hcaptured
  exact Pattern.read?_of_readAll? hbefore hcaptured rfl

/-- What is read as a literal stands between two quotes. -/
lemma of_read?_literalPattern {text found rest : Text}
    (h : literalPattern.read? text = some (found, rest)) :
    text = singleQuote :: (found ++ singleQuote :: rest) := by
  obtain ⟨lead, middle, last, trail, hbefore, hcaptured, hafter⟩ := Pattern.exists_of_read? h
  obtain ⟨_, _, _, rfl, hnil, rfl, -⟩ := Part.exists_of_readAll?_cons hbefore
  cases hnil
  obtain ⟨literal, _, _, -, hend, rfl, rfl⟩ := Part.exists_of_readAll?_cons hcaptured
  cases hend
  obtain ⟨_, _, _, rfl, hdone, rfl, -⟩ := Part.exists_of_readAll?_cons hafter
  cases hdone
  simp

/-- A match begins with a quote. -/
lemma silent_literalPattern {stretch : Text} (h : singleQuote ∉ stretch) (behind : Text) :
    literalPattern.Silent stretch behind := by
  rintro front rest rfl hne
  obtain ⟨c, rest, rfl⟩ := List.exists_cons_of_ne_nil hne
  by_contra hread
  obtain ⟨⟨found, others⟩, hread⟩ := Option.ne_none_iff_exists'.1 hread
  obtain ⟨rfl, -⟩ := List.cons.inj (of_read?_literalPattern hread)
  exact h (by simp)

/-- Without a quote nothing is captured. -/
lemma captures_of_no_quote {text : Text} (h : singleQuote ∉ text) :
    literalPattern.captures text = [] := by
  have hpassed := Pattern.captures_append (silent_literalPattern h [])
  rw [List.append_nil] at hpassed
  rw [hpassed, Pattern.captures]

/-- A quote without a partner matches nothing. -/
lemma captures_of_open_quote {text : Text} (h : singleQuote ∉ text) :
    literalPattern.captures (singleQuote :: text) = [] := by
  have hread : literalPattern.read? (singleQuote :: text) = none := by
    by_contra hread
    obtain ⟨⟨found, others⟩, hread⟩ := Option.ne_none_iff_exists'.1 hread
    obtain ⟨-, rfl⟩ := List.cons.inj (of_read?_literalPattern hread)
    exact h (by simp)
  rw [Pattern.captures_cons hread, captures_of_no_quote h]

/-! ## Literals of an expression -/

/-- The pieces between a quote and its partner are what is captured, and nothing else is. -/
lemma captures_literalPattern {value : Text}
    (h : ∀ literal ∈ closedPieces (value.splitOn singleQuote), '\n' ∉ literal) :
    literalPattern.captures value = closedPieces (value.splitOn singleQuote) := by
  induction hn : value.length using Nat.strong_induction_on generalizing value with
  | _ n ih =>
    by_cases hfirst : singleQuote ∈ value
    · obtain ⟨front, rest, rfl, hfront⟩ := List.eq_append_cons_of_mem hfirst
      rw [Pattern.captures_append (silent_literalPattern hfront _)]
      rw [List.splitOn_append_cons_self_of_not_mem hfront] at h ⊢
      by_cases hsecond : singleQuote ∈ rest
      · obtain ⟨literal, behind, rfl, hliteral⟩ := List.eq_append_cons_of_mem hsecond
        have hpieces := List.splitOn_ne_nil singleQuote behind
        rw [List.splitOn_append_cons_self_of_not_mem hliteral,
          closedPieces_cons_cons front literal hpieces] at h ⊢
        obtain ⟨hline, hbehind⟩ := List.forall_mem_cons.1 h
        have hshorter : behind.length < n := by
          simp only [List.length_append, List.length_cons] at hn
          omega
        rw [Pattern.captures_of_read? (read?_literalPattern hliteral hline behind),
          ih behind.length hshorter hbehind rfl]
      · rw [captures_of_open_quote hsecond, List.splitOn_eq_singleton hsecond]
        rfl
    · rw [captures_of_no_quote hfirst, List.splitOn_eq_singleton hfirst]
      rfl

/-- An expression is cut at its single quotes. Unless a line feed stands between a quote and its
partner, its literals are the pieces with odd numbers that have another piece behind them, in order,
less those of at most one byte. -/
theorem quotedLiterals_eq_pieces {value : Text}
    (h : ∀ literal ∈ closedPieces (value.splitOn singleQuote), '\n' ∉ literal) :
    let pieces := value.splitOn singleQuote
    (∀ n, (closedPieces pieces)[n]? =
      if 2 * n + 2 < pieces.length then pieces[2 * n + 1]? else none) ∧
    quotedLiterals value =
      [' '].intercalate ((closedPieces pieces).filter (1 < Text.utf8Size ·)) := by
  intro pieces
  refine ⟨getElem?_closedPieces pieces, ?_⟩
  rw [quotedLiterals, captures_literalPattern h]

/-- An empty literal, one of a single byte, one of a single character of two bytes, a line feed
between literals and a last quote without a partner. -/
theorem quotedLiterals_eq_pieces_unpaired :
    let value := "'' + a\n? 'b' : 'é' + 'two c' + it's\n".toList
    (∀ literal ∈ closedPieces (value.splitOn singleQuote), '\n' ∉ literal) ∧
      quotedLiterals value = "é two c".toList := by
  intro value
  have hlines : ∀ literal ∈ closedPieces (value.splitOn singleQuote), '\n' ∉ literal := by
    decide +kernel
  exact ⟨hlines, (quotedLiterals_eq_pieces hlines).2.trans (by decide +kernel)⟩

end CssPrune.Html
