import Recipe.Main
import Recipe.Proofs.CommandLine.Printed
import Recipe.Proofs.Json.Lossless
import Recipe.Proofs.Lexeme.Escaped
import Recipe.Proofs.Line.Beyond
import Recipe.Proofs.Line.Excerpt
import Recipe.Proofs.Line.Fields
import Recipe.Proofs.Line.Layout
import Recipe.Proofs.Line.Options
import Recipe.Proofs.Line.Parts
import Recipe.Proofs.Line.Places
import Recipe.Proofs.Line.Recovery
import Recipe.Proofs.Line.Shape
import Recipe.Proofs.Line.Undecoded
import Recipe.Proofs.Line.Verdict
import Recipe.Proofs.Line.Window
import Recipe.Proofs.Session.Chunk
import Recipe.Proofs.Session.Transcript
import Recipe.Proofs.Token.Calls
import Recipe.Proofs.Token.Cursor
import Recipe.Proofs.Token.Listing
import Recipe.Proofs.Token.Look
import Recipe.Proofs.Token.Tiling
import Recipe.Proofs.Written.Canonical
import Recipe.Proofs.Written.RoundTrip
