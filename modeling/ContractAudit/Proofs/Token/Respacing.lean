import ContractAudit.Proofs.Token.Tiling

/-!
# Tokens set apart by spaces

The texts of the tokens of a contract, with single spaces between them, are read as the same tokens
again. Blanks, comments and characters that start no token are lost, and nothing else.
-/

namespace ContractAudit

open List Piece

def Token.content (token : Token) : TokenKind × String × String :=
  (token.kind, token.value, token.raw)

/-- The texts of the tokens of a contract with single spaces between them. -/
def respaced (source : String) : String :=
  " ".intercalate ((tokenize source).dropLast.map Token.raw)

namespace Scan

def spacedOut (tokens : List Token) : List Char :=
  tokens.flatMap fun token => ' ' :: token.raw.toList

theorem spacedOut_spaced (tokens : List Token) : Spaced (spacedOut tokens) := by
  cases tokens with
  | nil => exact fun c hc => nomatch hc
  | cons token tokens => exact fun c hc => (Option.some.inj hc).symm

theorem Cut.content_spacedOut {location : Location} {text : List Char} {pieces : List Piece}
    (h : Cut location text pieces) (place : Location) :
    (tokensFrom place (spacedOut (pieces.filterMap token?))).map Token.content =
      (pieces.filterMap token?).map Token.content := by
  induction h generalizing place with
  | nil location => rfl
  | @cons location kind c raw rest pieces hscan hcut ih =>
      cases kind with
      | token kind value =>
          have hlast : rest = [] → spacedOut (pieces.filterMap token?) = [] := by
            rintro rfl
            cases hcut
            rfl
          have hspaced := spacedOut_spaced (pieces.filterMap token?)
          have hagain := scan_transfer hscan hspaced.apart (fun _ => hspaced.stops) fun _ => hlast
          have htoken : token? ⟨.token kind value, c :: raw, location⟩ =
            some ⟨kind, String.ofList value, String.ofList (c :: raw), location⟩ := rfl
          have htext (tokens : List Token) :
              spacedOut (⟨kind, String.ofList value, String.ofList (c :: raw),
                location⟩ :: tokens) =
                ' ' :: (c :: raw ++ spacedOut tokens) := by
            simp [spacedOut]
          rw [filterMap_cons_some htoken, htext, tokensFrom_space, tokensFrom_token hagain,
            map_cons,
            map_cons, ih]
          rfl
      | _ => exact ih place

end Scan

/-- Setting the tokens of a contract apart by single spaces keeps their kinds, values and texts. -/
theorem tokenize_respaced (source : String) :
    (tokenize (respaced source)).map Token.content = (tokenize source).map Token.content := by
  have htokens : (tokenize (respaced source)).dropLast.map Token.content =
      (tokenize source).dropLast.map Token.content := by
    -- The text starts behind the space in front of its first token.
    have hcut := (pieces_cut source).content_spacedOut ⟨1, 0, -1⟩
    rw [dropLast_tokenize (respaced source), respaced, dropLast_tokenize, pieces,
      String.toList_intercalate]
    cases htokens : (pieces source).filterMap Piece.token? with
    | nil => rfl
    | cons token tokens =>
        have htext : Scan.spacedOut (token :: tokens) =
            ' ' :: " ".toList.intercalate (((token :: tokens).map Token.raw).map
              String.toList) := by
          rw [map_cons, map_cons, Scan.intercalate_cons_eq, map_map, flatMap_map]
          rfl
        rw [htokens, htext, Scan.tokensFrom_space] at hcut
        exact hcut
  rw [tokenize_eq, tokenize_eq source, map_append, map_append, htokens]
  rfl

end ContractAudit
